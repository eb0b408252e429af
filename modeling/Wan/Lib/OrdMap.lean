import Mathlib.Tactic

/-!
# Finite maps with ordered keys

A map is its list of entries in increasing key order, which is what iterating
over a `std::map` shows. The first entry is the one with the least key.
`popWhile` is the loop that keeps erasing the first entry while a condition
holds of it.
-/

namespace Wan.Lib

variable {κ ν : Type*}

structure OrdMap (κ ν : Type*) [LinearOrder κ] where
  entries : List (κ × ν)
  sorted : entries.Pairwise (·.1 < ·.1)
  deriving DecidableEq

namespace OrdMap

-- ---------------------------------------------------------------------------
-- Entry lists
-- ---------------------------------------------------------------------------

/-- The longest stretch at the front whose elements pass `p`, which also sees
how many were taken before, and what is left. -/
def splitWhile {α : Type*} (p : ℕ → α → Bool) : ℕ → List α → List α × List α
  | _, [] => ([], [])
  | i, e :: es =>
    if p i e then (e :: (splitWhile p (i + 1) es).1, (splitWhile p (i + 1) es).2) else ([], e :: es)

theorem exists_of_mem_splitWhile {α : Type*} {p : ℕ → α → Bool} {i : ℕ} {es : List α} {e : α}
    (h : e ∈ (splitWhile p i es).1) : ∃ j, p j e = true := by
  induction es generalizing i with
  | nil => exact absurd h List.not_mem_nil
  | cons d es ih =>
    simp only [splitWhile] at h
    split_ifs at h with hd
    · rcases List.mem_cons.mp h with rfl | h
      · exact ⟨i, hd⟩
      · exact ih h
    · exact absurd h List.not_mem_nil

theorem splitWhile_append {α : Type*} (p : ℕ → α → Bool) (i : ℕ) (es : List α) :
    (splitWhile p i es).1 ++ (splitWhile p i es).2 = es := by
  induction es generalizing i with
  | nil => rfl
  | cons e es ih =>
    simp only [splitWhile]
    split_ifs
    · simp [ih]
    · rfl

section
variable [LinearOrder κ]

def insertEntry (k : κ) (v : ν) : List (κ × ν) → List (κ × ν)
  | [] => [(k, v)]
  | e :: es => if k < e.1 then (k, v) :: e :: es
    else if k = e.1 then (k, v) :: es
    else e :: insertEntry k v es

theorem mem_insertEntry {k : κ} {v : ν} {es : List (κ × ν)} {e : κ × ν}
    (h : e ∈ insertEntry k v es) : e = (k, v) ∨ e ∈ es := by
  induction es with
  | nil => simpa [insertEntry] using h
  | cons d ds ih =>
    simp only [insertEntry] at h
    split_ifs at h
    · simpa using h
    · rcases List.mem_cons.mp h with h | h
      · exact .inl h
      · exact .inr (List.mem_cons_of_mem _ h)
    · rcases List.mem_cons.mp h with h | h
      · exact .inr (h ▸ List.mem_cons_self)
      · exact (ih h).imp_right (List.mem_cons_of_mem _)

theorem sorted_insertEntry {k : κ} {v : ν} {es : List (κ × ν)}
    (h : es.Pairwise (·.1 < ·.1)) : (insertEntry k v es).Pairwise (·.1 < ·.1) := by
  induction es with
  | nil => simp [insertEntry]
  | cons d ds ih =>
    obtain ⟨hd, hds⟩ := List.pairwise_cons.mp h
    simp only [insertEntry]
    split_ifs with hlt heq
    · refine List.pairwise_cons.mpr ⟨fun e he => ?_, h⟩
      rcases List.mem_cons.mp he with rfl | he
      · exact hlt
      · exact hlt.trans (hd e he)
    · exact List.pairwise_cons.mpr ⟨fun e he => heq ▸ hd e he, hds⟩
    · refine List.pairwise_cons.mpr ⟨fun e he => ?_, ih hds⟩
      rcases mem_insertEntry he with rfl | he
      · exact lt_of_le_of_ne (not_lt.mp hlt) (Ne.symm heq)
      · exact hd e he

def findEntry (k : κ) : List (κ × ν) → Option ν
  | [] => none
  | e :: es => if e.1 = k then some e.2 else findEntry k es

theorem findEntry_iff {es : List (κ × ν)} (h : es.Pairwise (·.1 < ·.1)) {k : κ} {v : ν} :
    findEntry k es = some v ↔ (k, v) ∈ es := by
  induction es with
  | nil => simp [findEntry]
  | cons d ds ih =>
    obtain ⟨hd, hds⟩ := List.pairwise_cons.mp h
    simp only [findEntry, List.mem_cons]
    split_ifs with heq
    · subst heq
      constructor
      · intro hv
        exact .inl (Prod.ext rfl (Option.some.inj hv).symm)
      · rintro (hv | hm)
        · rw [← hv]
        · exact absurd (hd _ hm) (lt_irrefl _)
    · rw [ih hds]
      constructor
      · exact .inr
      · rintro (rfl | hm)
        · exact absurd rfl heq
        · exact hm

end

-- ---------------------------------------------------------------------------
-- Maps
-- ---------------------------------------------------------------------------

variable [LinearOrder κ] {m : OrdMap κ ν} {k k' : κ} {v v' : ν}

def empty : OrdMap κ ν := ⟨[], .nil⟩

def insert (m : OrdMap κ ν) (k : κ) (v : ν) : OrdMap κ ν :=
  ⟨insertEntry k v m.entries, sorted_insertEntry m.sorted⟩

def find? (m : OrdMap κ ν) (k : κ) : Option ν := findEntry k m.entries

def erase (m : OrdMap κ ν) (k : κ) : OrdMap κ ν :=
  ⟨m.entries.filter (·.1 ≠ k), m.sorted.filter _⟩

def keys (m : OrdMap κ ν) : List κ := m.entries.map Prod.fst

theorem find?_iff : m.find? k = some v ↔ (k, v) ∈ m.entries := findEntry_iff m.sorted

theorem mem_keys : k ∈ m.keys ↔ ∃ v, m.find? k = some v := by
  simp [keys, find?_iff]

theorem mem_keys_iff_isSome : k ∈ m.keys ↔ (m.find? k).isSome := by
  rw [mem_keys, Option.isSome_iff_exists]

theorem find?_eq_none : m.find? k = none ↔ k ∉ m.keys := by
  rw [mem_keys_iff_isSome]
  simp

@[simp] theorem find?_empty : (empty : OrdMap κ ν).find? k = none := rfl

@[simp] theorem keys_empty : (empty : OrdMap κ ν).keys = [] := rfl

theorem find?_insert : (m.insert k v).find? k' = if k' = k then some v else m.find? k' := by
  obtain ⟨es, h⟩ := m
  simp only [find?, insert]
  clear h
  induction es with
  | nil => simp [insertEntry, findEntry, eq_comm]
  | cons d ds ih =>
    by_cases hk : k' = k
    · subst hk
      simp only [insertEntry]
      split_ifs with hlt heq
      · simp [findEntry]
      · simp [findEntry]
      · simpa [findEntry, Ne.symm heq] using ih
    · simp only [insertEntry]
      split_ifs with hlt heq
      · simp [findEntry, Ne.symm hk]
      · simp [findEntry, Ne.symm hk, ← heq]
      · simpa [findEntry, hk] using congrArg (fun x => if d.1 = k' then some d.2 else x) ih

@[simp] theorem mem_keys_insert : k' ∈ (m.insert k v).keys ↔ k' = k ∨ k' ∈ m.keys := by
  rw [mem_keys_iff_isSome, mem_keys_iff_isSome, find?_insert]
  split_ifs with h <;> simp [h]

theorem find?_erase : (m.erase k).find? k' = if k' = k then none else m.find? k' := by
  refine Option.ext fun v => ?_
  split_ifs with h
  · simp [find?_iff, erase, h]
  · simp [find?_iff, erase, h]

@[simp] theorem mem_keys_erase : k' ∈ (m.erase k).keys ↔ k' ∈ m.keys ∧ k' ≠ k := by
  rw [mem_keys_iff_isSome, mem_keys_iff_isSome, find?_erase]
  split_ifs with h <;> simp [h]

theorem nodup_keys (m : OrdMap κ ν) : m.keys.Nodup :=
  (List.pairwise_map.mpr m.sorted).imp ne_of_lt

theorem length_entries_le {l : List κ} (h : ∀ k ∈ m.keys, k ∈ l) : m.entries.length ≤ l.length := by
  rw [← List.length_map Prod.fst]
  exact (m.nodup_keys.subperm h).length_le

-- ---------------------------------------------------------------------------
-- Erasing from the front
-- ---------------------------------------------------------------------------

/-- `while (!m.empty() && p(i, *m.begin())) m.erase(m.begin())`: the entries
erased, in order, and the map left. -/
def popWhile (p : ℕ → κ × ν → Bool) (m : OrdMap κ ν) : List (κ × ν) × OrdMap κ ν :=
  ((splitWhile p 0 m.entries).1, ⟨(splitWhile p 0 m.entries).2, by
    have h := m.sorted
    rw [← splitWhile_append p 0 m.entries] at h
    exact (List.pairwise_append.mp h).2.1⟩)

theorem popWhile_append (p : ℕ → κ × ν → Bool) (m : OrdMap κ ν) :
    (m.popWhile p).1 ++ (m.popWhile p).2.entries = m.entries := splitWhile_append p 0 m.entries

theorem popWhile_sorted (p : ℕ → κ × ν → Bool) (m : OrdMap κ ν) :
    (m.popWhile p).1.Pairwise (·.1 < ·.1) := by
  have h := m.sorted
  rw [← popWhile_append p m] at h
  exact (List.pairwise_append.mp h).1

theorem mem_of_mem_popped {p : ℕ → κ × ν → Bool} {e : κ × ν} (h : e ∈ (m.popWhile p).1) :
    e ∈ m.entries := by
  rw [← popWhile_append p m]
  exact List.mem_append_left _ h

theorem exists_of_mem_popped {p : ℕ → κ × ν → Bool} {e : κ × ν} (h : e ∈ (m.popWhile p).1) :
    ∃ i, p i e = true := exists_of_mem_splitWhile h

theorem mem_of_mem_rest {p : ℕ → κ × ν → Bool} {e : κ × ν}
    (h : e ∈ (m.popWhile p).2.entries) : e ∈ m.entries := by
  rw [← popWhile_append p m]
  exact List.mem_append_right _ h

theorem splitWhile_key_lt {p : κ → Bool} (hp : ∀ a b, a < b → p b = true → p a = true) {i : ℕ}
    {es : List (κ × ν)} (hs : es.Pairwise (·.1 < ·.1)) :
    (splitWhile (fun _ e => p e.1) i es).1 = es.filter (fun e => p e.1) ∧
      (splitWhile (fun _ e => p e.1) i es).2 = es.filter (fun e => !p e.1) := by
  induction es generalizing i with
  | nil => simp [splitWhile]
  | cons d ds ih =>
    obtain ⟨hd, hds⟩ := List.pairwise_cons.mp hs
    obtain ⟨h1, h2⟩ := ih (i := i + 1) hds
    cases hpd : p d.1 with
    | true => simp [splitWhile, hpd, h1, h2]
    | false =>
      have hall : ∀ e ∈ ds, p e.1 = false := fun e he => by
        by_contra hne
        exact absurd (hp _ _ (hd e he) (by simpa using hne)) (by simp [hpd])
      have hf : ds.filter (fun e => p e.1) = [] :=
        List.filter_eq_nil_iff.mpr fun e he => by simp [hall e he]
      have hg : ds.filter (fun e => !p e.1) = ds :=
        List.filter_eq_self.mpr fun e he => by simp [hall e he]
      simp [splitWhile, hpd, hf, hg]

/-- A condition that fails on every key above one it fails on splits the map
by that condition. -/
theorem popWhile_key {p : κ → Bool} (hp : ∀ a b, a < b → p b = true → p a = true)
    (m : OrdMap κ ν) :
    (m.popWhile fun _ e => p e.1).1 = m.entries.filter (fun e => p e.1) ∧
      (m.popWhile fun _ e => p e.1).2.entries = m.entries.filter (fun e => !p e.1) :=
  splitWhile_key_lt hp m.sorted

theorem find?_popWhile_lt {c : κ} :
    (m.popWhile fun _ e => e.1 < c).2.find? k = some v ↔ m.find? k = some v ∧ c ≤ k := by
  have hpop := (popWhile_key (p := fun k => decide (k < c)) (fun a b hab hb => by
    simp only [decide_eq_true_eq] at hb ⊢
    exact hab.trans hb) m).2
  rw [find?_iff, find?_iff, hpop, List.mem_filter]
  simp

end OrdMap

end Wan.Lib
