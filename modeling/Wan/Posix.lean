import Mathlib.Data.Vector.Basic
import Mathlib.Tactic

/-!
# What the programs take from the C library

Socket addresses, fixed-size character arrays, input streams, and the calls on a
stream socket. An array that was never written holds arbitrary bytes, so every
copy says which bytes it leaves alone. Streams follow the platform the programs
run on: `ftell` on a closed stream returns -1, and `fread` reads everything that
is there.
-/

namespace Wan.Posix

abbrev Bytes := List UInt8

/-- The part of `sockaddr_in` the programs compare. -/
structure SockaddrIn where
  sAddr : UInt32
  sinPort : UInt16
  deriving DecidableEq, Repr

-- ---------------------------------------------------------------------------
-- Character arrays
-- ---------------------------------------------------------------------------

abbrev CharArray (n : ℕ) := List.Vector UInt8 n

variable {n : ℕ}

/-- Copy to the front of an array, leaving the bytes after the copy as they
were. Bytes that do not fit are not part of the array. -/
def CharArray.memcpy (buf : CharArray n) (src : Bytes) : CharArray n :=
  ⟨(src ++ buf.toList.drop src.length).take n, by
    simp only [List.length_take, List.length_append, List.length_drop, List.Vector.toList_length]
    omega⟩

theorem CharArray.take_memcpy_min (buf : CharArray n) (src : Bytes) :
    (buf.memcpy src).toList.take src.length = src.take n := by
  show (List.take n (src ++ buf.toList.drop src.length)).take src.length = src.take n
  rw [List.take_take, min_comm, ← List.take_take, List.take_left]

theorem CharArray.take_memcpy (buf : CharArray n) {src : Bytes} (h : src.length ≤ n) :
    (buf.memcpy src).toList.take src.length = src := by
  rw [CharArray.take_memcpy_min, List.take_of_length_le h]

/-- A string argument has no byte 0. -/
abbrev CString := { bytes : Bytes // 0 ∉ bytes }

/-- Bytes that do not fit are copied behind the array, which is not seen here. -/
def CharArray.strcpy (buf : CharArray n) (src : Bytes) : CharArray n := buf.memcpy (src ++ [0])

theorem takeWhile_terminated {name : Bytes} (hnul : 0 ∉ name) (rest : Bytes) :
    (name ++ [0] ++ rest).takeWhile (· ≠ 0) = name := by
  rw [List.append_assoc, List.takeWhile_append_of_pos fun a ha => by
    simp only [ne_eq, decide_eq_true_eq]
    rintro rfl
    exact hnul ha]
  simp

theorem CharArray.toList_strcpy (buf : CharArray n) {name : Bytes} (h : name.length < n) :
    (buf.strcpy name).toList = name ++ [0] ++ buf.toList.drop (name ++ [0]).length := by
  refine List.take_of_length_le ?_
  simp only [List.length_append, List.length_drop, List.Vector.toList_length,
    List.length_singleton]
  omega

/-- `strtok`: the next token and what is left behind the delimiter that ends it. -/
def strtok (delims str : Bytes) : Option (Bytes × Bytes) :=
  let str := str.dropWhile (· ∈ delims)
  if str = [] then none
  else some (str.takeWhile (· ∉ delims), (str.dropWhile (· ∉ delims)).drop 1)

theorem strtok_subset {delims str tok rest : Bytes} (h : strtok delims str = some (tok, rest)) :
    tok ⊆ str := by
  simp only [strtok] at h
  split_ifs at h
  obtain ⟨rfl, -⟩ := Prod.mk.inj (Option.some.inj h)
  exact fun c hc => (List.dropWhile_sublist _).subset ((List.takeWhile_sublist _).subset hc)

def CharArray.memcpyAt (buf : CharArray n) (off : ℕ) (src : Bytes) : CharArray n :=
  ⟨(buf.toList.take off ++ src ++ buf.toList.drop (off + src.length)).take n, by
    simp only [List.length_take, List.length_append, List.length_drop, List.Vector.toList_length]
    omega⟩

theorem CharArray.toList_memcpyAt (buf : CharArray n) {off : ℕ} {src : Bytes}
    (h : off + src.length ≤ n) : (buf.memcpyAt off src).toList =
      buf.toList.take off ++ src ++ buf.toList.drop (off + src.length) := by
  refine List.take_of_length_le ?_
  simp only [List.length_take, List.length_append, List.length_drop, List.Vector.toList_length]
  omega

theorem CharArray.memcpyAt_nil (buf : CharArray n) (off : ℕ) : buf.memcpyAt off [] = buf := by
  apply List.Vector.toList_injective
  show List.take n _ = buf.toList
  simp

theorem CharArray.memcpyAt_append (buf : CharArray n) {off : ℕ} {xs ys : Bytes}
    (h : off + (xs ++ ys).length ≤ n) :
    (buf.memcpyAt off xs).memcpyAt (off + xs.length) ys = buf.memcpyAt off (xs ++ ys) := by
  rw [List.length_append] at h
  have hoff : (buf.toList.take off).length = off := by
    rw [List.length_take, List.Vector.toList_length]
    omega
  apply List.Vector.toList_injective
  rw [CharArray.toList_memcpyAt _ (by omega), CharArray.toList_memcpyAt _ (by omega),
    CharArray.toList_memcpyAt _ (by rw [List.length_append]; omega)]
  have htake : (buf.toList.take off ++ xs ++ buf.toList.drop (off + xs.length)).take
      (off + xs.length) = buf.toList.take off ++ xs :=
    List.take_left' (by rw [List.length_append, hoff])
  have hdrop : (buf.toList.take off ++ xs ++ buf.toList.drop (off + xs.length)).drop
      (off + xs.length + ys.length) = buf.toList.drop (off + xs.length + ys.length) := by
    rw [← List.drop_drop, List.drop_left' (by rw [List.length_append, hoff]), List.drop_drop]
  rw [htake, hdrop, List.length_append, Nat.add_assoc]
  simp only [List.append_assoc]

theorem CharArray.take_memcpyAt_zero (buf : CharArray n) {src : Bytes} (h : src.length ≤ n) :
    (buf.memcpyAt 0 src).toList.take src.length = src := by
  rw [CharArray.toList_memcpyAt _ (by omega)]
  simp

/-- The bytes of a two's-complement integer of `w` bytes, least first. -/
def leBytes (w : ℕ) (x : ℤ) : Bytes :=
  (List.range w).map fun i => UInt8.ofNat (x / 256 ^ i % 256).toNat

def leNat : Bytes → ℕ
  | [] => 0
  | b :: bs => b.toNat + 256 * leNat bs

def leInt (bytes : Bytes) : ℤ := (leNat bytes : ℤ).bmod (256 ^ bytes.length)

theorem length_leBytes (w : ℕ) (x : ℤ) : (leBytes w x).length = w := by
  simp [leBytes]

theorem leBytes_succ (w : ℕ) (x : ℤ) :
    leBytes (w + 1) x = UInt8.ofNat (x % 256).toNat :: leBytes w (x / 256) := by
  simp only [leBytes, List.range_succ_eq_map, List.map_cons, List.map_map, pow_zero, Int.ediv_one]
  congr 1
  refine List.map_congr_left fun i _ => ?_
  rw [Function.comp_apply, Nat.succ_eq_add_one, pow_succ', Int.ediv_ediv_of_nonneg (by decide)]

theorem leNat_leBytes (w : ℕ) (x : ℤ) : (leNat (leBytes w x) : ℤ) = x % 256 ^ w := by
  induction w generalizing x with
  | zero => simp [leBytes, leNat]
  | succ w ih =>
    have hbyte : ((UInt8.ofNat (x % 256).toNat).toNat : ℤ) = x % 256 := by
      have hlt : x % 256 < 256 := Int.emod_lt_of_pos x (by decide)
      have hnn : 0 ≤ x % 256 := Int.emod_nonneg x (by decide)
      rw [UInt8.toNat_ofNat', Nat.mod_eq_of_lt (by omega), Int.toNat_of_nonneg hnn]
    have hdiv : x / 256 / 256 ^ w = x / (256 * 256 ^ w) := Int.ediv_ediv_of_nonneg (by decide)
    rw [leBytes_succ, leNat, pow_succ']
    push_cast
    rw [hbyte, ih, Int.emod_def x 256, Int.emod_def (x / 256), Int.emod_def x (256 * 256 ^ w), hdiv]
    ring

theorem leInt_leBytes (w : ℕ) (x : ℤ) : leInt (leBytes w x) = x.bmod (256 ^ w) := by
  rw [leInt, leNat_leBytes, length_leBytes]
  exact_mod_cast Int.emod_bmod x (256 ^ w)

theorem leInt_cons_emod (b : UInt8) (bs : Bytes) : leInt (b :: bs) % 256 = b.toNat := by
  have hdvd : (256 : ℤ) ∣ ((256 ^ (b :: bs).length : ℕ) : ℤ) :=
    ⟨256 ^ bs.length, by push_cast [List.length_cons]; ring⟩
  have hlt : b.toNat < 256 := b.toNat_lt
  rw [leInt, ← Int.emod_emod_of_dvd _ hdvd, Int.bmod_emod, Int.emod_emod_of_dvd _ hdvd, leNat]
  omega

theorem leInt_leBytes_four {x : ℤ} (hlo : -2 ^ 31 ≤ x) (hhi : x < 2 ^ 31) :
    leInt (leBytes 4 x) = x := by
  rw [leInt_leBytes]
  exact Int.bmod_eq_of_le (by omega) (by omega)

theorem leInt_leBytes_eight {x : ℤ} (hlo : -2 ^ 63 ≤ x) (hhi : x < 2 ^ 63) :
    leInt (leBytes 8 x) = x := by
  rw [leInt_leBytes]
  exact Int.bmod_eq_of_le (by omega) (by omega)

/-- An integer of `w` bytes once `bytes` was copied over its low bytes. -/
def overlay (w : ℕ) (x : ℤ) (bytes : Bytes) : ℤ :=
  if bytes.length < w then x - x % 256 ^ bytes.length + leNat bytes else leInt bytes

theorem overlay_nil {w : ℕ} (hw : 0 < w) (x : ℤ) : overlay w x [] = x := by
  simp [overlay, hw, leNat]

theorem overlay_mono (w : ℕ) (bytes : Bytes) {x y : ℤ} (h : x ≤ y) :
    overlay w x bytes ≤ overlay w y bytes := by
  unfold overlay
  split_ifs
  · have hpos : (0 : ℤ) < 256 ^ bytes.length := by positivity
    have hdiv := Int.ediv_le_ediv hpos h
    have hx := Int.mul_ediv_add_emod x (256 ^ bytes.length)
    have hy := Int.mul_ediv_add_emod y (256 ^ bytes.length)
    have hmul := mul_le_mul_of_nonneg_left hdiv hpos.le
    omega
  · exact le_rfl

theorem leBytes_leNat (bytes : Bytes) : leBytes bytes.length (leNat bytes) = bytes := by
  induction bytes with
  | nil => rfl
  | cons b bs ih =>
    have hlt : b.toNat < 256 := b.toNat_lt
    have hlow : ((b.toNat + 256 * leNat bs : ℕ) : ℤ) % 256 = b.toNat := by omega
    have hhigh : ((b.toNat + 256 * leNat bs : ℕ) : ℤ) / 256 = leNat bs := by omega
    rw [List.length_cons, leBytes_succ, leNat, hlow, hhigh, ih, Int.toNat_natCast,
      UInt8.ofNat_toNat]

theorem leBytes_bmod (w : ℕ) (x : ℤ) : leBytes w (x.bmod (256 ^ w)) = leBytes w x := by
  have hnat : leNat (leBytes w (x.bmod (256 ^ w))) = leNat (leBytes w x) := by
    apply Int.ofNat.inj
    show (leNat _ : ℤ) = leNat _
    rw [leNat_leBytes, leNat_leBytes]
    exact_mod_cast Int.bmod_emod
  have h := congrArg (fun n : ℕ => leBytes w n) hnat
  have hlen (y : ℤ) : leBytes w (leNat (leBytes w y)) = leBytes w y := by
    have h := leBytes_leNat (leBytes w y)
    rwa [length_leBytes] at h
  simpa only [hlen] using h

theorem leBytes_overlay {w : ℕ} {bytes : Bytes} (h : bytes.length ≤ w) (x : ℤ) :
    leBytes w (overlay w x bytes) = bytes ++ (leBytes w x).drop bytes.length := by
  rcases h.lt_or_eq with hlt | rfl
  · rw [overlay, if_pos hlt]
    clear h
    induction bytes generalizing w x with
    | nil => simp [leNat]
    | cons b bs ih =>
      obtain ⟨w, rfl⟩ : ∃ v, w = v + 1 := ⟨w - 1, by omega⟩
      rw [List.length_cons] at hlt
      have hb : b.toNat < 256 := b.toNat_lt
      -- the low byte is the first one copied, and the others are copied over the rest
      have hsplit : x % 256 ^ (bs.length + 1) = x % 256 + 256 * (x / 256 % 256 ^ bs.length) := by
        rw [pow_succ', Int.emod_def x (256 * _), Int.emod_def x 256, Int.emod_def (x / 256),
          Int.ediv_ediv_of_nonneg (by decide)]
        ring
      obtain ⟨r, hr⟩ : ∃ r, x / 256 % 256 ^ bs.length = r := ⟨_, rfl⟩
      rw [hr] at hsplit
      have hlow : (x - x % 256 ^ (bs.length + 1) + leNat (b :: bs)) % 256 = b.toNat := by
        rw [hsplit, leNat]
        omega
      have hhigh : (x - x % 256 ^ (bs.length + 1) + leNat (b :: bs)) / 256 =
          x / 256 - r + leNat bs := by
        rw [hsplit, leNat]
        omega
      rw [List.length_cons, leBytes_succ, leBytes_succ, hlow, hhigh, ← hr, ih _ (by omega),
        List.drop_succ_cons, List.cons_append, Int.toNat_natCast, UInt8.ofNat_toNat]
  · rw [overlay, if_neg (lt_irrefl _), leInt]
    have hend : (leBytes bytes.length x).drop bytes.length = [] :=
      List.drop_of_length_le (length_leBytes ..).le
    rw [hend, List.append_nil]
    have hmod := leBytes_bmod bytes.length (leNat bytes)
    rw [leBytes_leNat] at hmod
    exact_mod_cast hmod

def slice (bytes : Bytes) (off len : ℕ) : Bytes := (bytes.drop off).take len

/-- Of fields laid one behind the other, the `i`-th one. -/
theorem slice_flatten {fields : List Bytes} {field : Bytes} {off len : ℕ} (i : ℕ)
    (hi : fields[i]? = some field) (hoff : ((fields.take i).map List.length).sum = off)
    (hlen : field.length = len) : slice fields.flatten off len = field := by
  obtain ⟨hlt, rfl⟩ := List.getElem?_eq_some_iff.mp hi
  have hsplit : fields.flatten =
      (fields.take i).flatten ++ (fields[i] ++ (fields.drop (i + 1)).flatten) := by
    rw [← List.flatten_cons, ← List.drop_eq_getElem_cons hlt, ← List.flatten_append,
      List.take_append_drop]
  rw [← List.length_flatten] at hoff
  rw [slice, hsplit, List.drop_left' hoff, List.take_left' hlen]

-- ---------------------------------------------------------------------------
-- Streams
-- ---------------------------------------------------------------------------

/-- An input stream: the file's bytes and the position, none once closed. -/
structure FileStream where
  content : Bytes
  pos : Option ℕ
  deriving DecidableEq

def FileStream.ftell (f : FileStream) : ℤ :=
  match f.pos with
  | some p => p
  | none => -1

def FileStream.fread (f : FileStream) (size : ℕ) : Bytes × FileStream :=
  match f.pos with
  | some p =>
    let read := (f.content.drop p).take size
    (read, { f with pos := some (p + read.length) })
  | none => ([], f)

def FileStream.fclose (f : FileStream) : FileStream := { f with pos := none }

-- ---------------------------------------------------------------------------
-- Numbers
-- ---------------------------------------------------------------------------

/-- What an `int` holds when `x` is stored in it. -/
def toInt (x : ℤ) : ℤ := x.bmod (2 ^ 32)

def IntRange (x : ℤ) : Prop := -2 ^ 31 ≤ x ∧ x < 2 ^ 31

instance (x : ℤ) : Decidable (IntRange x) :=
  inferInstanceAs (Decidable (-2 ^ 31 ≤ x ∧ x < 2 ^ 31))

theorem toInt_eq {x : ℤ} (hlo : -2 ^ 31 ≤ x) (hhi : x < 2 ^ 31) : toInt x = x :=
  Int.bmod_eq_of_le (by omega) (by omega)

theorem toInt_le {x : ℤ} (h : -2 ^ 31 ≤ x) : toInt x ≤ x := by
  rw [toInt, Int.bmod_def]
  split_ifs <;> omega

theorem toInt_range (x : ℤ) : IntRange (toInt x) := by
  rw [IntRange, toInt, Int.bmod_def]
  split_ifs <;> omega

-- ---------------------------------------------------------------------------
-- Stream sockets
-- ---------------------------------------------------------------------------

/-- What the calls of `send` or `recv` return, by the number of the call and the
number of bytes that could be moved. -/
abbrev Returns := ℕ → ℕ → ℤ

structure Pieces where
  ret : Returns
  pos : ∀ call len, 0 < len → 0 < ret call len
  le : ∀ call len, 0 < len → ret call len ≤ len

def Pieces.whole : Pieces where
  ret := fun _ len => len
  pos := fun _ _ h => Int.natCast_pos.mpr h
  le := fun _ _ _ => le_rfl

def recv (ret : Returns) (call len : ℕ) (stream : Bytes) : ℤ :=
  if stream = [] then 0 else ret call (min len stream.length)

end Wan.Posix
