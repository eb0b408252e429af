import Mathlib.Tactic

/-!
# Runs of a reactive machine

A machine is a function from a state and an event to the next state and the
outputs it emits. A run is a list of events. `Along` says a condition holds of
every state of the run together with the event handled there, so a hypothesis
on each step and an invariant are stated in the same words.

`unwind` compares a run with the run in which some events are replaced or left
out: what an observer sees is the same when every single step is matched.
-/

namespace Wan.Lib

variable {σ ε ω ο : Type*}

/-- `P` holds of every state met on the way with the event handled in it. -/
def Along (next : σ → ε → σ) (P : σ → ε → Prop) : σ → List ε → Prop
  | _, [] => True
  | s, e :: es => P s e ∧ Along next P (next s e) es

instance Along.decidable (next : σ → ε → σ) (P : σ → ε → Prop) [∀ s e, Decidable (P s e)] :
    ∀ s es, Decidable (Along next P s es)
  | _, [] => .isTrue trivial
  | s, e :: es =>
    have := Along.decidable next P (next s e) es
    inferInstanceAs (Decidable (P s e ∧ Along next P (next s e) es))

section
variable {next : σ → ε → σ} {P Q : σ → ε → Prop} {I : σ → Prop}

theorem Along.and {s : σ} {es : List ε} (hp : Along next P s es) (hq : Along next Q s es) :
    Along next (fun s e => P s e ∧ Q s e) s es := by
  induction es generalizing s with
  | nil => trivial
  | cons e es ih => exact ⟨⟨hp.1, hq.1⟩, ih hp.2 hq.2⟩

theorem Along.mono {s : σ} {es : List ε} (h : Along next P s es) (hpq : ∀ s e, P s e → Q s e) :
    Along next Q s es := by
  induction es generalizing s with
  | nil => trivial
  | cons e es ih => exact ⟨hpq s e h.1, ih h.2⟩

theorem along_of_forall {R : ε → Prop} {s : σ} {es : List ε} (h : ∀ e ∈ es, R e) :
    Along next (fun _ e => R e) s es := by
  induction es generalizing s with
  | nil => trivial
  | cons e es ih =>
    exact ⟨h e List.mem_cons_self, ih fun e' he' => h e' (List.mem_cons_of_mem _ he')⟩

theorem forall_of_along {R : ε → Prop} {s : σ} {es : List ε}
    (h : Along next (fun _ e => R e) s es) : ∀ e ∈ es, R e := by
  induction es generalizing s with
  | nil => simp
  | cons e es ih =>
    intro e' he'
    rcases List.mem_cons.mp he' with rfl | he'
    · exact h.1
    · exact ih h.2 e' he'

theorem along_trivial {s : σ} {es : List ε} : Along next (fun _ _ => True) s es :=
  along_of_forall (R := fun _ => True) fun _ _ => trivial

/-- The invariant rule: what holds initially and is kept by every step that
meets `P` holds after the run. -/
theorem Along.inv {s : σ} {es : List ε} (h : Along next P s es) (hs : I s)
    (hstep : ∀ s e, I s → P s e → I (next s e)) : I (es.foldl next s) := by
  induction es generalizing s with
  | nil => exact hs
  | cons e es ih => exact ih h.2 (hstep s e hs h.1)

theorem Along.strengthen {s : σ} {es : List ε} (h : Along next P s es) (hs : I s)
    (hstep : ∀ s e, I s → P s e → I (next s e)) (hq : ∀ s e, I s → P s e → Q s e) :
    Along next Q s es := by
  induction es generalizing s with
  | nil => trivial
  | cons e es ih => exact ⟨hq s e hs h.1, ih h.2 (hstep s e hs h.1)⟩

/-- The invariant rule for what also speaks of the events so far. -/
theorem Along.inv_history {J : List ε → σ → Prop} {s : σ} {es : List ε} (h : Along next P s es)
    (hs : J [] s) (hstep : ∀ past s e, J past s → P s e → J (past ++ [e]) (next s e)) :
    J es (es.foldl next s) := by
  have hgen : ∀ past, J past s → J (past ++ es) (es.foldl next s) := by
    clear hs
    induction es generalizing s with
    | nil =>
      intro past hs
      rwa [List.append_nil]
    | cons e es ih =>
      intro past hs
      rw [← List.singleton_append, ← List.append_assoc]
      exact ih h.2 (past ++ [e]) (hstep past s e hs h.1)
  exact hgen [] hs

theorem flag_iff_along {F : σ → Prop} (hkeep : ∀ s e, I s → I (next s e))
    (hstep : ∀ s e, I s → (F (next s e) ↔ F s ∧ P s e)) {s : σ} (hs : I s) (es : List ε) :
    F (es.foldl next s) ↔ F s ∧ Along next P s es := by
  induction es generalizing s with
  | nil => exact ⟨fun h => ⟨h, trivial⟩, And.left⟩
  | cons e es ih =>
    rw [List.foldl_cons, ih (hkeep s e hs), hstep s e hs, and_assoc]
    rfl

theorem along_append {s : σ} {es fs : List ε} :
    Along next P s (es ++ fs) ↔ Along next P s es ∧ Along next P (es.foldl next s) fs := by
  induction es generalizing s with
  | nil => exact ⟨fun h => ⟨trivial, h⟩, And.right⟩
  | cons e es ih => exact (and_congr_right fun _ => ih).trans and_assoc.symm

theorem along_concat {s : σ} {es : List ε} {e : ε} :
    Along next P s (es ++ [e]) ↔ Along next P s es ∧ P (es.foldl next s) e :=
  along_append.trans (and_congr_right fun _ => ⟨And.left, fun h => ⟨h, trivial⟩⟩)

theorem along_of_splits {s : σ} {es : List ε}
    (h : ∀ past e rest, es = past ++ e :: rest → P (past.foldl next s) e) : Along next P s es := by
  induction es generalizing s with
  | nil => trivial
  | cons e es ih =>
    refine ⟨h [] e es rfl, ih fun past e' rest heq => h (e :: past) e' rest ?_⟩
    rw [heq]
    rfl

/-- When a property of the events so far survives exactly the steps with `P`, it
holds after every part of a run exactly when every step has `P`. -/
theorem prefixes_iff_along {R : List ε → Prop} {s : σ} (hnil : R [])
    (hstep : ∀ past e, Along next P s past → R past →
      (R (past ++ [e]) ↔ P (past.foldl next s) e)) (es : List ε) :
    (∀ past rest, es = past ++ rest → R past) ↔ Along next P s es := by
  induction es using List.reverseRecOn with
  | nil =>
    refine iff_of_true (fun past rest heq => ?_) trivial
    rw [(List.append_eq_nil_iff.mp heq.symm).1]
    exact hnil
  | append_singleton es e ih =>
    rw [along_concat]
    constructor
    · intro h
      have halong := ih.mp fun past rest heq =>
        h past (rest ++ [e]) (by rw [heq, List.append_assoc])
      have hr : R es := h es [e] rfl
      exact ⟨halong, (hstep es e halong hr).mp (h (es ++ [e]) [] (List.append_nil _).symm)⟩
    · rintro ⟨halong, hp⟩ past rest heq
      have hall := ih.mpr halong
      rcases List.append_eq_append_iff.mp heq.symm with ⟨more, hes, -⟩ | ⟨more, hpast, hmore⟩
      · exact hall past more hes
      · cases more with
        | nil => exact hall past [] (by rw [hpast, List.append_nil, List.append_nil])
        | cons e' more =>
          obtain ⟨rfl, hrest⟩ := List.cons.inj hmore
          rw [hpast, (List.append_eq_nil_iff.mp hrest.symm).1]
          exact (hstep es e halong (hall es [] (List.append_nil _).symm)).mpr hp

theorem holds_iff_along {R : List ε → Prop} {s : σ} (hnil : R [])
    (hstep : ∀ past e, Along next P s past → R past →
      (R (past ++ [e]) ↔ P (past.foldl next s) e))
    (hback : ∀ past e, R (past ++ [e]) → R past) (es : List ε) : R es ↔ Along next P s es := by
  rw [← prefixes_iff_along hnil hstep]
  constructor
  · rintro hr past rest rfl
    induction rest using List.reverseRecOn with
    | nil => rwa [List.append_nil] at hr
    | append_singleton rest e ih =>
      rw [← List.append_assoc] at hr
      exact ih (hback _ e hr)
  · exact fun h => h es [] (List.append_nil es).symm

theorem inv_iff_along {J : σ → Prop} (hkeep : ∀ s e, J s → J (next s e))
    (hstep : ∀ s e, J s → I s → (I (next s e) ↔ P s e)) {s : σ} (hj : J s) (hi : I s)
    (es : List ε) :
    (∀ past rest, es = past ++ rest → I (past.foldl next s)) ↔ Along next P s es := by
  refine prefixes_iff_along (R := fun past => I (past.foldl next s)) hi (fun past e h hr => ?_) es
  rw [List.foldl_append]
  exact hstep _ e (h.inv hj fun s e hs _ => hkeep s e hs) hr

/-- The variant rule: when some events of a kind `R` always lead to the goal or to
a smaller index, events of that kind lead to the goal. -/
theorem exists_run {R : ε → Prop} {J : ℕ → σ → Prop} {G : σ → Prop}
    (h : ∀ m s, J m s → ∃ es : List ε, (∀ e ∈ es, R e) ∧
      (G (es.foldl next s) ∨ ∃ m', m' < m ∧ J m' (es.foldl next s)))
    {m : ℕ} {s : σ} (hs : J m s) : ∃ es : List ε, (∀ e ∈ es, R e) ∧ G (es.foldl next s) := by
  induction m using Nat.strong_induction_on generalizing s with
  | _ m ih =>
    obtain ⟨es, hes, hg | ⟨m', hlt, hj⟩⟩ := h m s hs
    · exact ⟨es, hes, hg⟩
    · obtain ⟨fs, hfs, hg⟩ := ih m' hlt hj
      refine ⟨es ++ fs, fun e he => ?_, by rwa [List.foldl_append]⟩
      rcases List.mem_append.mp he with he | he
      · exact hes e he
      · exact hfs e he

/-- The simulation rule: when every step of a second machine is a run of this one on
what it stands for, so is every run. -/
theorem Along.simulated {τ ζ : Type*} {next' : τ → ζ → τ} {Q' : τ → ζ → Prop} {f : τ → σ}
    (h : ∀ t e, Q' t e → ∃ es, Along next P (f t) es ∧ es.foldl next (f t) = f (next' t e))
    {t : τ} {fs : List ζ} (hrun : Along next' Q' t fs) :
    ∃ es, Along next P (f t) es ∧ es.foldl next (f t) = f (fs.foldl next' t) := by
  induction fs generalizing t with
  | nil => exact ⟨[], trivial, rfl⟩
  | cons e fs ih =>
    obtain ⟨es, hes, hstep⟩ := h t e hrun.1
    obtain ⟨es', hes', hrest⟩ := ih hrun.2
    refine ⟨es ++ es', along_append.mpr ⟨hes, hstep ▸ hes'⟩, ?_⟩
    rw [List.foldl_append, hstep, hrest]
    rfl

end

def next (step : σ → ε → σ × List ω) (s : σ) (e : ε) : σ := (step s e).1

def trace (step : σ → ε → σ × List ω) : σ → List ε → List ω
  | _, [] => []
  | s, e :: es => (step s e).2 ++ trace step (next step s e) es

theorem Along.trace {step : σ → ε → σ × List ω} {Q : ω → Prop} {s : σ} {es : List ε}
    (h : Along (next step) (fun s e => ∀ o ∈ (step s e).2, Q o) s es) :
    ∀ o ∈ trace step s es, Q o := by
  induction es generalizing s with
  | nil => simp [Lib.trace]
  | cons e es ih =>
    intro o ho
    rcases List.mem_append.mp ho with ho | ho
    · exact h.1 o ho
    · exact ih h.2 o ho

theorem trace_concat {step : σ → ε → σ × List ω} {s : σ} {es : List ε} {e : ε} :
    trace step s (es ++ [e]) = trace step s es ++ (step (es.foldl (next step) s) e).2 := by
  induction es generalizing s with
  | nil => simp [trace]
  | cons e' es ih => simp [trace, ih]

def gather {τ : Type*} (next : σ → ε → σ) (f : σ → ε → List τ) : σ → List ε → List τ
  | _, [] => []
  | s, e :: es => f s e ++ gather next f (next s e) es

theorem gather_append {τ : Type*} {next : σ → ε → σ} {f : σ → ε → List τ} {s : σ}
    {es fs : List ε} :
    gather next f s (es ++ fs) = gather next f s es ++ gather next f (es.foldl next s) fs := by
  induction es generalizing s with
  | nil => rfl
  | cons e es ih => simp [gather, ih]

theorem gather_concat {τ : Type*} {next : σ → ε → σ} {f : σ → ε → List τ} {s : σ} {es : List ε}
    {e : ε} : gather next f s (es ++ [e]) = gather next f s es ++ f (es.foldl next s) e := by
  rw [gather_append]
  simp [gather]

/-- A queue that takes in `inn` at its end and gives out `out` at its front gives
out what it took in, in order. -/
theorem fifo {τ : Type*} {next : σ → ε → σ} {I : σ → Prop} (queue : σ → List τ)
    {inn out : σ → ε → List τ} (hkeep : ∀ s e, I s → I (next s e))
    (hstep : ∀ s e, I s → queue s ++ inn s e = out s e ++ queue (next s e))
    {s : σ} (hs : I s) (es : List ε) :
    queue s ++ gather next inn s es = gather next out s es ++ queue (es.foldl next s) := by
  induction es generalizing s with
  | nil => simp [gather]
  | cons e es ih =>
    rw [gather, ← List.append_assoc, hstep s e hs, List.append_assoc, ih (hkeep s e hs),
      ← List.append_assoc]
    rfl

/-- The event `e` in state `s` is matched, in a related state `t`, by another
event or by nothing: the states stay related and an observer who keeps `see` of
every output is shown the same. -/
def Matched (step : σ → ε → σ × List ω) (R : σ → σ → Prop) (see : ω → Option ο)
    (s t : σ) (e : ε) : Option ε → Prop
  | none => R (next step s e) t ∧ (step s e).2.filterMap see = []
  | some e' => R (next step s e) (next step t e') ∧
      (step s e).2.filterMap see = (step t e').2.filterMap see

/-- `g` maps an event of the first run to the one the second run handles, or
leaves it out. When every step is matched, whole runs show the same. -/
theorem unwind {step : σ → ε → σ × List ω} {R : σ → σ → Prop} {P : σ → ε → Prop}
    {g : ε → Option ε} {see : ω → Option ο}
    (hstep : ∀ s t e, R s t → P s e → Matched step R see s t e (g e))
    {s t : σ} {es : List ε} (hr : R s t) (hp : Along (next step) P s es) :
    R (es.foldl (next step) s) ((es.filterMap g).foldl (next step) t) ∧
      (trace step s es).filterMap see = (trace step t (es.filterMap g)).filterMap see := by
  induction es generalizing s t with
  | nil => exact ⟨hr, rfl⟩
  | cons e es ih =>
    have h := hstep s t e hr hp.1
    cases hg : g e with
    | none =>
      rw [hg] at h
      obtain ⟨hi, ho⟩ := ih h.1 hp.2
      refine ⟨by simpa [List.filterMap_cons, hg] using hi, ?_⟩
      simpa [trace, List.filterMap_cons, hg, h.2] using ho
    | some e' =>
      rw [hg] at h
      obtain ⟨hi, ho⟩ := ih h.1 hp.2
      refine ⟨by simpa [List.filterMap_cons, hg] using hi, ?_⟩
      simp only [trace, List.filterMap_append, List.filterMap_cons, hg, h.2]
      exact congrArg _ ho

theorem unwind_map {step : σ → ε → σ × List ω} {I : σ → Prop} {P : σ → ε → Prop} {g : ε → ε}
    {see : ω → Bool} (hkeep : ∀ s e, I s → P s e → I (next step s e))
    (hstep : ∀ s e, I s → P s e → next step s e = next step s (g e) ∧
      (step s e).2.filter see = (step s (g e)).2.filter see)
    {s : σ} {es : List ε} (hs : I s) (hp : Along (next step) P s es) :
    es.foldl (next step) s = (es.map g).foldl (next step) s ∧
      (trace step s es).filter see = (trace step s (es.map g)).filter see := by
  induction es generalizing s with
  | nil => exact ⟨rfl, rfl⟩
  | cons e es ih =>
    obtain ⟨hstate, hout⟩ := hstep s e hs hp.1
    obtain ⟨hend, hrest⟩ := ih (hkeep s e hs hp.1) hp.2
    simp only [List.map_cons, List.foldl_cons, trace, List.filter_append, ← hstate, ← hout]
    exact ⟨hend, congrArg _ hrest⟩

end Wan.Lib
