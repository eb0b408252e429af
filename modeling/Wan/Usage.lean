import Wan.Lib.Fields
import Wan.Posix
import Wan.SendtoDbg

/-!
# The command lines

Each program reads its arguments in `Usage`, with `strtok`, `atoi` and `sscanf`. An
argument is a list of bytes, without the 0 that ends it. Where an argument is shorter than
the program expects, `strtok` returns the null pointer: some programs check for it.
-/

namespace Wan

open Posix Lib

inductive Usage (α : Type)
  | parsed (args : α)
  /-- `Print_help` leaves the program, after a line about the error, if any. -/
  | help (error : Option String)
  /-- `sendto_dbg_init` leaves the program. -/
  | badRate
  /-- `atoi` is handed the null pointer. -/
  | fault

instance : Monad Usage where
  pure := .parsed
  bind u f :=
    match u with
    | .parsed args => f args
    | .help error => .help error
    | .badRate => .badRate
    | .fault => .fault

@[simp] theorem Usage.parsed_bind {α β : Type} (a : α) (f : α → Usage β) :
    Usage.parsed a >>= f = f a := rfl

theorem Usage.bind_eq_parsed {α β : Type} {u : Usage α} {f : α → Usage β} {b : β} :
    u >>= f = .parsed b ↔ ∃ a, u = .parsed a ∧ f a = .parsed b := by
  cases u with
  | parsed a => simp
  | help error => simp [bind]
  | badRate => simp [bind]
  | fault => simp [bind]

theorem Usage.bind_eq_fault {α β : Type} {u : Usage α} {f : α → Usage β} :
    u >>= f = .fault ↔ u = .fault ∨ ∃ a, u = .parsed a ∧ f a = .fault := by
  cases u with
  | parsed a => simp
  | help error => simp [bind]
  | badRate => simp [bind]
  | fault => simp [bind]

-- ---------------------------------------------------------------------------
-- Numbers
-- ---------------------------------------------------------------------------

def isSpace (c : UInt8) : Bool := c = 32 ∨ (9 ≤ c ∧ c ≤ 13)

def isDigit (c : UInt8) : Bool := 48 ≤ c ∧ c ≤ 57

def digitsValue (ds : Bytes) : ℕ := ds.foldl (fun n c => 10 * n + (c.toNat - 48)) 0

def sign : Bytes → ℤ × Bytes
  | 45 :: s => (-1, s)
  | 43 :: s => (1, s)
  | s => (1, s)

/-- `strtol(s, NULL, 10)`, if there is a number. One that is no `long` gives the nearest
`long`. -/
def strtol (s : Bytes) : Option ℤ :=
  let signed := sign (s.dropWhile isSpace)
  let ds := signed.2.takeWhile isDigit
  if ds = [] then none
  else some (max (-2 ^ 63) (min (signed.1 * digitsValue ds) (2 ^ 63 - 1)))

def atoi (s : Bytes) : ℤ := toInt ((strtol s).getD 0)

/-- `sscanf(s, "%d", &i)`: none if it does not return 1. -/
def sscanfInt (s : Bytes) : Option ℤ := (strtol s).map toInt

def decimalDigits (n : ℕ) : Bytes := (Nat.toDigits 10 n).map fun c => UInt8.ofNat c.toNat

def decimal (n : ℤ) : Bytes := (if n < 0 then [45] else []) ++ decimalDigits n.natAbs

theorem toNat_of_mem_toDigits {n : ℕ} {c : Char} (hc : c ∈ Nat.toDigits 10 n) :
    (UInt8.ofNat c.toNat).toNat = c.toNat ∧ 48 ≤ c.toNat ∧ c.toNat ≤ 57 := by
  have hdigit := Nat.isDigit_of_mem_toDigits (by decide) (by decide) hc
  obtain ⟨hlo, hhi⟩ : 48 ≤ c.val ∧ c.val ≤ 57 := by
    simpa [Char.isDigit] using hdigit
  have hlo' : 48 ≤ c.toNat := hlo
  have hhi' : c.toNat ≤ 57 := hhi
  exact ⟨UInt8.toNat_ofNat_of_lt' (by show c.toNat < 256; omega), hlo', hhi'⟩

theorem isDigit_of_mem {n : ℕ} {c : UInt8} (hc : c ∈ decimalDigits n) : isDigit c = true := by
  obtain ⟨d, hd, rfl⟩ := List.mem_map.mp hc
  obtain ⟨heq, hlo, hhi⟩ := toNat_of_mem_toDigits hd
  simp only [isDigit, UInt8.le_iff_toNat_le, heq, decide_eq_true_eq]
  exact ⟨hlo, hhi⟩

theorem decimalDigits_ne_nil (n : ℕ) : decimalDigits n ≠ [] := by
  simp [decimalDigits, Nat.toDigits_ne_nil]

theorem digitsValue_decimalDigits (n : ℕ) : digitsValue (decimalDigits n) = n := by
  rw [digitsValue, decimalDigits, List.foldl_map]
  have hfold : (Nat.toDigits 10 n).foldl
      (fun m c => 10 * m + ((UInt8.ofNat c.toNat).toNat - 48)) 0 =
        Nat.ofDigitChars 10 (Nat.toDigits 10 n) 0 := by
    rw [Nat.ofDigitChars_eq_foldl]
    refine List.foldl_ext _ _ _ fun m c hc => ?_
    rw [(toNat_of_mem_toDigits hc).1]
    rfl
  rw [hfold, Nat.ofDigitChars_ten_toDigits]

theorem sign_decimal (n : ℤ) :
    sign ((decimal n).dropWhile isSpace) = (if n < 0 then -1 else 1, decimalDigits n.natAbs) := by
  rw [decimal]
  split_ifs with hn
  · rfl
  · obtain ⟨c, ds, hds⟩ := List.exists_cons_of_ne_nil (decimalDigits_ne_nil n.natAbs)
    have hc : isDigit c = true := isDigit_of_mem (hds ▸ List.mem_cons_self)
    simp only [isDigit, decide_eq_true_eq, UInt8.le_iff_toNat_le] at hc
    have hspace : ¬ isSpace c = true := by
      simp only [isSpace, decide_eq_true_eq, UInt8.le_iff_toNat_le, ← UInt8.toNat_inj]
      have h48 : UInt8.toNat 48 = 48 := rfl
      have h32 : UInt8.toNat 32 = 32 := rfl
      have h13 : UInt8.toNat 13 = 13 := rfl
      omega
    rw [List.nil_append, hds, List.dropWhile_cons_of_neg hspace]
    unfold sign
    split
    · rename_i h
      obtain ⟨rfl, -⟩ := List.cons.inj h
      exact absurd hc (by decide)
    · rename_i h
      obtain ⟨rfl, -⟩ := List.cons.inj h
      exact absurd hc (by decide)
    · rfl

theorem strtol_decimal {n : ℤ} (hlo : -2 ^ 63 ≤ n) (hhi : n < 2 ^ 63) :
    strtol (decimal n) = some n := by
  have hdigits : (decimalDigits n.natAbs).takeWhile isDigit = decimalDigits n.natAbs :=
    List.takeWhile_eq_self_iff.mpr fun c hc => isDigit_of_mem hc
  simp only [strtol, sign_decimal, hdigits, if_neg (decimalDigits_ne_nil n.natAbs),
    digitsValue_decimalDigits]
  have hvalue : (if n < 0 then -1 else 1) * (n.natAbs : ℤ) = n := by
    split_ifs <;> omega
  rw [hvalue, min_eq_left (by omega), max_eq_right hlo]

theorem atoi_decimal {n : ℤ} (h : IntRange n) : atoi (decimal n) = n := by
  rw [atoi, strtol_decimal (le_trans (by norm_num) h.1) (lt_trans h.2 (by norm_num))]
  exact toInt_eq h.1 h.2

theorem sscanfInt_decimal {n : ℤ} (h : IntRange n) : sscanfInt (decimal n) = some n := by
  rw [sscanfInt, strtol_decimal (le_trans (by norm_num) h.1) (lt_trans h.2 (by norm_num))]
  exact congrArg some (toInt_eq h.1 h.2)

theorem intRange_atoi (s : Bytes) : IntRange (atoi s) := toInt_range _

theorem intRange_of_sscanfInt {s : Bytes} {n : ℤ} (h : sscanfInt s = some n) : IntRange n := by
  obtain ⟨x, -, rfl⟩ := Option.map_eq_some_iff.mp h
  exact toInt_range x

theorem notMem_decimal {c : UInt8} (hdigit : isDigit c = false) (hminus : c ≠ 45) (n : ℤ) :
    c ∉ decimal n := by
  intro hc
  rcases List.mem_append.mp hc with hc | hc
  · split_ifs at hc
    · exact hminus (List.mem_singleton.mp hc)
    · exact List.not_mem_nil hc
  · simp [isDigit_of_mem hc] at hdigit

theorem decimal_ne_nil (n : ℤ) : decimal n ≠ [] := by
  simp [decimal, decimalDigits_ne_nil]

-- ---------------------------------------------------------------------------
-- Tokens
-- ---------------------------------------------------------------------------

noncomputable abbrev pieces (seps str : Bytes) : List Bytes :=
  fields (fun c => decide (c ∈ seps)) str

def Piece (seps s : Bytes) : Prop := s ≠ [] ∧ ∀ c ∈ s, c ∉ seps

variable {seps str : Bytes}

theorem piece_of_mem {s : Bytes} (h : s ∈ pieces seps str) : Piece seps s := by
  obtain ⟨hne, hall⟩ := mem_fields h
  exact ⟨hne, fun c hc => by simpa using hall c hc⟩

theorem strtok_cases (seps str : Bytes) :
    (strtok seps str = none ∧ pieces seps str = []) ∨
      ∃ tok rest, strtok seps str = some (tok, rest) ∧
        pieces seps str = tok :: pieces seps rest := by
  have hdrop := fields_dropWhile (p := fun c => decide (c ∈ seps)) str
  cases hstr : str.dropWhile (fun c => decide (c ∈ seps)) with
  | nil =>
    rw [hstr, fields_nil] at hdrop
    exact .inl ⟨by simp [strtok, hstr], hdrop.symm⟩
  | cons c l =>
    have hc : decide (c ∈ seps) = false := by
      have := List.head?_dropWhile_not (fun c => decide (c ∈ seps)) str
      rw [hstr] at this
      simpa using this
    rw [hstr, fields_eq_cons (p := fun c => decide (c ∈ seps)) hc] at hdrop
    refine .inr ⟨(c :: l).takeWhile (· ∉ seps), ((c :: l).dropWhile (· ∉ seps)).drop 1, ?_, ?_⟩
    · simp only [strtok, hstr]
      exact if_neg (List.cons_ne_nil c l)
    · rw [pieces, ← hdrop]
      simp only [decide_not]

theorem pieces_append {s t : Bytes} {c : UInt8} (hs : Piece seps s) (hc : c ∈ seps) :
    pieces seps (s ++ c :: t) = s :: pieces seps t := by
  have hs' : ∀ x ∈ s, decide (x ∈ seps) = false := by simpa using hs.2
  rw [pieces, fields_append_cons (by simpa using hc), fields_singleton hs' hs.1]
  rfl

theorem pieces_singleton {s : Bytes} (hs : Piece seps s) : pieces seps s = [s] :=
  fields_singleton (by simpa using hs.2) hs.1

-- ---------------------------------------------------------------------------
-- A server and its port
-- ---------------------------------------------------------------------------

def colon : Bytes := [58]

def target (noIP noPort : Usage (Bytes × ℤ)) (str : Bytes) : Usage (Bytes × ℤ) :=
  match strtok colon str with
  | none => noIP
  | some (ip, rest) =>
    match strtok colon rest with
    | none => noPort
    | some (port, _) => .parsed (ip, atoi port)

variable {noIP noPort : Usage (Bytes × ℤ)}

theorem target_eq (noIP noPort : Usage (Bytes × ℤ)) (str : Bytes) : target noIP noPort str =
    match pieces colon str with
    | [] => noIP
    | [_] => noPort
    | ip :: port :: _ => .parsed (ip, atoi port) := by
  rcases strtok_cases colon str with ⟨htok, hp⟩ | ⟨ip, rest, htok, hp⟩
  · simp [target, htok, hp]
  · rcases strtok_cases colon rest with ⟨htok', hp'⟩ | ⟨port, rest', htok', hp'⟩
    · simp [target, htok, htok', hp, hp']
    · simp [target, htok, htok', hp, hp']

theorem target_decimal {ip : Bytes} {port : ℤ} (hip : Piece colon ip) (hport : IntRange port) :
    target noIP noPort (ip ++ 58 :: decimal port) = .parsed (ip, port) := by
  have hpiece : Piece colon (decimal port) := by
    refine ⟨decimal_ne_nil port, fun c hc hcolon => ?_⟩
    obtain rfl := List.mem_singleton.mp hcolon
    exact notMem_decimal (by decide) (by decide) port hc
  rw [target_eq, pieces_append hip (by decide), pieces_singleton hpiece]
  simp [atoi_decimal hport]

theorem target_parsed (hIP : ∀ a, noIP ≠ .parsed a) (hPort : ∀ a, noPort ≠ .parsed a)
    {ip : Bytes} {port : ℤ} (h : target noIP noPort str = .parsed (ip, port)) :
    Piece colon ip ∧ IntRange port := by
  rw [target_eq] at h
  split at h
  · exact absurd h (hIP _)
  · exact absurd h (hPort _)
  · rename_i ip' port' rest hp
    obtain ⟨rfl, rfl⟩ := Prod.mk.inj (Usage.parsed.inj h)
    exact ⟨piece_of_mem (hp ▸ List.mem_cons_self), intRange_atoi port'⟩

-- ---------------------------------------------------------------------------
-- The programs
-- ---------------------------------------------------------------------------

structure CommandLine (α : Type) where
  usage : List Bytes → Usage α
  format : α → List Bytes
  Ok : α → Prop

/-- What is written as the help text says is read back, and what is read is well formed. -/
def CommandLine.RoundTrip {α : Type} (c : CommandLine α) : Prop :=
  (∀ name a, c.Ok a → c.usage (name :: c.format a) = .parsed a) ∧
    ∀ argv a, c.usage argv = .parsed a → c.Ok a

def parseEnv (env : Bytes) : Bool := env.head? = some 76

def formatEnv (isLAN : Bool) : Bytes := if isLAN then [76] else [87]

def number (s : Bytes) : Usage ℤ :=
  match sscanfInt s with
  | none => .help none
  | some n => .parsed n

def portUsage : List Bytes → Usage ℤ
  | [_, port] => number port
  | _ => .help none

namespace Proj1

def errorNoIP : String := "Error: no server IP provided"

structure NcpArgs where
  lossRate : ℤ
  isLAN : Bool
  sFname : Bytes
  dFname : Bytes
  serverIP : Bytes
  port : ℤ

def rate (s : Bytes) : Usage ℤ :=
  match sendtoDbgInit (atoi s) with
  | none => .badRate
  | some _ => .parsed (atoi s)

def delims : Bytes := [64, 58]

def ncpTarget (str : Bytes) : Usage (Bytes × Bytes × ℤ) :=
  match strtok delims str with
  | none => .help errorNoIP
  | some (dFname, rest) =>
    match strtok delims rest with
    | none => .help errorNoIP
    | some (serverIP, rest) =>
      match strtok delims rest with
      | none => .fault
      | some (port, _) => .parsed (dFname, serverIP, atoi port)

def ncpUsage : List Bytes → Usage NcpArgs
  | [_, loss, env, sFname, dest] => do
    let lossRate ← rate loss
    let (dFname, serverIP, port) ← ncpTarget dest
    return ⟨lossRate, parseEnv env, sFname, dFname, serverIP, port⟩
  | _ => .help none

structure RcvArgs where
  lossRate : ℤ
  port : ℤ
  isLAN : Bool

def rcvUsage : List Bytes → Usage RcvArgs
  | [_, loss, port, env] => do
    let lossRate ← rate loss
    let port ← number port
    return ⟨lossRate, port, parseEnv env⟩
  | _ => .help none

def tNcpUsage : List Bytes → Usage (Bytes × ℤ)
  | [_, server] => target (.help errorNoIP) .fault server
  | _ => .help none

def tRcvUsage : List Bytes → Usage ℤ := portUsage

end Proj1

namespace Proj2

def errorTarget : String := "Error: incorrect target IP and port format"

structure RtSrvArgs where
  lossRate : ℤ
  appPort : ℤ
  svrPort : ℤ

def rtSrvUsage : List Bytes → Usage RtSrvArgs
  | [_, loss, appPort, svrPort] => .parsed ⟨atoi loss, atoi appPort, atoi svrPort⟩
  | _ => .help none

structure RtRcvArgs where
  lossRate : ℤ
  svrIP : Bytes
  svrPort : ℤ
  appPort : ℤ

def rtRcvUsage : List Bytes → Usage RtRcvArgs
  | [_, loss, svr, appPort] => do
    let (svrIP, svrPort) ← target (.help errorTarget) (.help errorTarget) svr
    return ⟨atoi loss, svrIP, svrPort, atoi appPort⟩
  | _ => .help none

structure UdpStreamArgs where
  targetIP : Bytes
  port : ℤ
  numMsgs : ℤ

def udpStreamUsage : List Bytes → Usage UdpStreamArgs
  | [_, dest, numMsgs] => do
    let (targetIP, port) ← target (.help errorTarget) (.help errorTarget) dest
    let numMsgs ← number numMsgs
    return ⟨targetIP, port, numMsgs⟩
  | _ => .help none

def udpStreamRcvUsage : List Bytes → Usage ℤ := portUsage

end Proj2

-- ---------------------------------------------------------------------------
-- Parts of a line
-- ---------------------------------------------------------------------------

theorem parseEnv_formatEnv (isLAN : Bool) : parseEnv (formatEnv isLAN) = isLAN := by
  cases isLAN <;> rfl

theorem number_decimal {n : ℤ} (h : IntRange n) : number (decimal n) = .parsed n := by
  rw [number, sscanfInt_decimal h]

theorem number_eq_parsed {s : Bytes} {n : ℤ} (h : number s = .parsed n) : IntRange n := by
  unfold number at h
  split at h
  · cases h
  · rename_i hs
    cases h
    exact intRange_of_sscanfInt hs

theorem number_ne_fault (s : Bytes) : number s ≠ .fault := by
  unfold number
  split <;> simp

namespace Proj1

theorem rate_cases (s : Bytes) :
    (rate s = .badRate ∧ ¬ (0 ≤ atoi s ∧ atoi s ≤ 100)) ∨
      (rate s = .parsed (atoi s) ∧ 0 ≤ atoi s ∧ atoi s ≤ 100) := by
  unfold rate sendtoDbgInit
  by_cases h : atoi s < 0 ∨ atoi s > 100
  · rw [if_pos h]
    exact .inl ⟨rfl, by omega⟩
  · rw [if_neg h]
    exact .inr ⟨rfl, by omega⟩

theorem rate_decimal {n : ℤ} (hlo : 0 ≤ n) (hhi : n ≤ 100) : rate (decimal n) = .parsed n := by
  have hn : atoi (decimal n) = n := atoi_decimal ⟨by omega, by omega⟩
  rcases rate_cases (decimal n) with ⟨-, hbad⟩ | ⟨hrate, -⟩
  · omega
  · rw [hrate, hn]

theorem rate_eq_parsed {s : Bytes} {n : ℤ} (h : rate s = .parsed n) : 0 ≤ n ∧ n ≤ 100 := by
  rcases rate_cases s with ⟨hrate, -⟩ | ⟨hrate, hrange⟩
  · rw [hrate] at h
    cases h
  · rw [hrate] at h
    cases h
    exact hrange

theorem ncpTarget_eq (str : Bytes) : ncpTarget str =
    match pieces delims str with
    | [] => .help errorNoIP
    | [_] => .help errorNoIP
    | [_, _] => .fault
    | dFname :: serverIP :: port :: _ => .parsed (dFname, serverIP, atoi port) := by
  rcases strtok_cases delims str with ⟨htok, hp⟩ | ⟨dFname, rest, htok, hp⟩
  · simp [ncpTarget, htok, hp]
  · rcases strtok_cases delims rest with ⟨htok', hp'⟩ | ⟨serverIP, rest', htok', hp'⟩
    · simp [ncpTarget, htok, htok', hp, hp']
    · rcases strtok_cases delims rest' with ⟨htok'', hp''⟩ | ⟨port, rest'', htok'', hp''⟩
      · simp [ncpTarget, htok, htok', htok'', hp, hp', hp'']
      · simp [ncpTarget, htok, htok', htok'', hp, hp', hp'']

theorem ncpTarget_decimal {dFname serverIP : Bytes} {port : ℤ} (hd : Piece delims dFname)
    (hs : Piece delims serverIP) (hport : IntRange port) :
    ncpTarget (dFname ++ 64 :: (serverIP ++ 58 :: decimal port)) =
      .parsed (dFname, serverIP, port) := by
  have hpiece : Piece delims (decimal port) := by
    refine ⟨decimal_ne_nil port, fun c hc hdelim => ?_⟩
    rcases List.mem_pair.mp hdelim with rfl | rfl
    · exact notMem_decimal (by decide) (by decide) port hc
    · exact notMem_decimal (by decide) (by decide) port hc
  rw [ncpTarget_eq, pieces_append hd (by decide), pieces_append hs (by decide),
    pieces_singleton hpiece]
  simp [atoi_decimal hport]

theorem ncpTarget_parsed {str dFname serverIP : Bytes} {port : ℤ}
    (h : ncpTarget str = .parsed (dFname, serverIP, port)) :
    Piece delims dFname ∧ Piece delims serverIP ∧ IntRange port := by
  rw [ncpTarget_eq] at h
  split at h
  · cases h
  · cases h
  · cases h
  · rename_i port' rest hp
    cases h
    have hserver : serverIP ∈ pieces delims str := by simp [hp]
    exact ⟨piece_of_mem (hp ▸ List.mem_cons_self), piece_of_mem hserver, intRange_atoi port'⟩

end Proj1

-- ---------------------------------------------------------------------------
-- The lines
-- ---------------------------------------------------------------------------

def formatTarget (ip : Bytes) (port : ℤ) : Bytes := ip ++ 58 :: decimal port

/-- `ncp <loss_rate_percent> <env> <source_file_name> <dest_file_name>@<ip_address>:<port>` -/
def Proj1.ncpLine : CommandLine NcpArgs where
  usage := ncpUsage
  format a := [decimal a.lossRate, formatEnv a.isLAN, a.sFname,
    a.dFname ++ 64 :: formatTarget a.serverIP a.port]
  Ok a := (0 ≤ a.lossRate ∧ a.lossRate ≤ 100) ∧ Piece delims a.dFname ∧ Piece delims a.serverIP ∧
    IntRange a.port

/-- `rcv <loss_rate_percent> <port> <env>` -/
def Proj1.rcvLine : CommandLine RcvArgs where
  usage := rcvUsage
  format a := [decimal a.lossRate, decimal a.port, formatEnv a.isLAN]
  Ok a := (0 ≤ a.lossRate ∧ a.lossRate ≤ 100) ∧ IntRange a.port

/-- `<server_ip>:<port>` -/
def Proj1.tNcpLine : CommandLine (Bytes × ℤ) where
  usage := tNcpUsage
  format a := [formatTarget a.1 a.2]
  Ok a := Piece colon a.1 ∧ IntRange a.2

/-- `<port>` -/
def portLine : CommandLine ℤ where
  usage := portUsage
  format port := [decimal port]
  Ok := IntRange

def Proj1.tRcvLine : CommandLine ℤ := { portLine with usage := tRcvUsage }

def Proj2.udpStreamRcvLine : CommandLine ℤ := { portLine with usage := udpStreamRcvUsage }

/-- `<loss_rate_percent> <app_port> <client_port>` -/
def Proj2.rtSrvLine : CommandLine RtSrvArgs where
  usage := rtSrvUsage
  format a := [decimal a.lossRate, decimal a.appPort, decimal a.svrPort]
  Ok a := IntRange a.lossRate ∧ IntRange a.appPort ∧ IntRange a.svrPort

/-- `rt_rcv <loss_rate_percent> <server_ip>:<server_port> <app_port>` -/
def Proj2.rtRcvLine : CommandLine RtRcvArgs where
  usage := rtRcvUsage
  format a := [decimal a.lossRate, formatTarget a.svrIP a.svrPort, decimal a.appPort]
  Ok a := IntRange a.lossRate ∧ Piece colon a.svrIP ∧ IntRange a.svrPort ∧ IntRange a.appPort

/-- `udp_stream <ip_addr>:<port> <num_msgs>` -/
def Proj2.udpStreamLine : CommandLine UdpStreamArgs where
  usage := udpStreamUsage
  format a := [formatTarget a.targetIP a.port, decimal a.numMsgs]
  Ok a := Piece colon a.targetIP ∧ IntRange a.port ∧ IntRange a.numMsgs

theorem Proj1.ncpLine_roundTrip : ncpLine.RoundTrip := by
  constructor
  · rintro name a ⟨⟨hlo, hhi⟩, hd, hs, hport⟩
    simp only [ncpLine, ncpUsage, formatTarget, rate_decimal hlo hhi, ncpTarget_decimal hd hs hport,
      parseEnv_formatEnv, Usage.parsed_bind]
    rfl
  · intro argv a h
    simp only [ncpLine, ncpUsage] at h
    split at h
    · obtain ⟨lossRate, hrate, h⟩ := Usage.bind_eq_parsed.mp h
      obtain ⟨⟨dFname, serverIP, port⟩, htarget, h⟩ := Usage.bind_eq_parsed.mp h
      cases h
      exact ⟨rate_eq_parsed hrate, ncpTarget_parsed htarget⟩
    · cases h

theorem Proj1.rcvLine_roundTrip : rcvLine.RoundTrip := by
  constructor
  · rintro name a ⟨⟨hlo, hhi⟩, hport⟩
    simp only [rcvLine, rcvUsage, rate_decimal hlo hhi, number_decimal hport, parseEnv_formatEnv,
      Usage.parsed_bind]
    rfl
  · intro argv a h
    simp only [rcvLine, rcvUsage] at h
    split at h
    · obtain ⟨lossRate, hrate, h⟩ := Usage.bind_eq_parsed.mp h
      obtain ⟨port, hport, h⟩ := Usage.bind_eq_parsed.mp h
      cases h
      exact ⟨rate_eq_parsed hrate, number_eq_parsed hport⟩
    · cases h

theorem Proj1.tNcpLine_roundTrip : tNcpLine.RoundTrip := by
  constructor
  · rintro name ⟨ip, port⟩ ⟨hip, hport⟩
    exact target_decimal hip hport
  · rintro argv ⟨ip, port⟩ h
    simp only [tNcpLine, tNcpUsage] at h
    split at h
    · exact target_parsed (by simp) (by simp) h
    · cases h

theorem portLine_roundTrip : portLine.RoundTrip := by
  constructor
  · intro name port hport
    exact number_decimal hport
  · intro argv port h
    simp only [portLine, portUsage] at h
    split at h
    · exact number_eq_parsed h
    · cases h

theorem Proj2.rtSrvLine_roundTrip : rtSrvLine.RoundTrip := by
  constructor
  · rintro name a ⟨hloss, happ, hsvr⟩
    simp only [rtSrvLine, rtSrvUsage, atoi_decimal hloss, atoi_decimal happ, atoi_decimal hsvr]
  · intro argv a h
    simp only [rtSrvLine, rtSrvUsage] at h
    split at h
    · cases h
      exact ⟨intRange_atoi _, intRange_atoi _, intRange_atoi _⟩
    · cases h

theorem Proj2.rtRcvLine_roundTrip : rtRcvLine.RoundTrip := by
  constructor
  · rintro name a ⟨hloss, hip, hsvr, happ⟩
    simp only [rtRcvLine, rtRcvUsage, formatTarget, target_decimal hip hsvr, atoi_decimal hloss,
      atoi_decimal happ, Usage.parsed_bind]
    rfl
  · intro argv a h
    simp only [rtRcvLine, rtRcvUsage] at h
    split at h
    · obtain ⟨⟨ip, port⟩, htarget, h⟩ := Usage.bind_eq_parsed.mp h
      obtain ⟨hip, hport⟩ := target_parsed (by simp) (by simp) htarget
      cases h
      exact ⟨intRange_atoi _, hip, hport, intRange_atoi _⟩
    · cases h

theorem Proj2.udpStreamLine_roundTrip : udpStreamLine.RoundTrip := by
  constructor
  · rintro name a ⟨hip, hport, hnum⟩
    simp only [udpStreamLine, udpStreamUsage, formatTarget, target_decimal hip hport,
      number_decimal hnum, Usage.parsed_bind]
    rfl
  · intro argv a h
    simp only [udpStreamLine, udpStreamUsage] at h
    split at h
    · obtain ⟨⟨ip, port⟩, htarget, h⟩ := Usage.bind_eq_parsed.mp h
      obtain ⟨n, hnum, h⟩ := Usage.bind_eq_parsed.mp h
      obtain ⟨hip, hport⟩ := target_parsed (by simp) (by simp) htarget
      cases h
      exact ⟨hip, hport, number_eq_parsed hnum⟩
    · cases h

/-- Every program reads its arguments back when they are written as its help text says, and
starts only with well-formed ones: addresses and names that are not empty and hold no
delimiter, numbers that are `int`s, and in `ncp` and `rcv` a rate that is a percentage. -/
theorem command_lines : Proj1.ncpLine.RoundTrip ∧ Proj1.rcvLine.RoundTrip ∧
    Proj1.tNcpLine.RoundTrip ∧ Proj1.tRcvLine.RoundTrip ∧ Proj2.rtSrvLine.RoundTrip ∧
    Proj2.rtRcvLine.RoundTrip ∧ Proj2.udpStreamLine.RoundTrip ∧ Proj2.udpStreamRcvLine.RoundTrip :=
  ⟨Proj1.ncpLine_roundTrip, Proj1.rcvLine_roundTrip, Proj1.tNcpLine_roundTrip, portLine_roundTrip,
    Proj2.rtSrvLine_roundTrip, Proj2.rtRcvLine_roundTrip, Proj2.udpStreamLine_roundTrip,
    portLine_roundTrip⟩

-- ---------------------------------------------------------------------------
-- The null pointer
-- ---------------------------------------------------------------------------

theorem target_eq_fault (hIP : noIP ≠ .fault) : target noIP noPort str = .fault ↔
    noPort = .fault ∧ (pieces colon str).length = 1 := by
  rw [target_eq]
  split
  · rename_i hp
    simp [hp, hIP]
  · rename_i hp
    simp [hp]
  · rename_i hp
    simp [hp]

theorem Proj1.ncpTarget_eq_fault : ncpTarget str = .fault ↔ (pieces delims str).length = 2 := by
  rw [ncpTarget_eq]
  split
  · rename_i hp
    simp [hp]
  · rename_i hp
    simp [hp]
  · rename_i hp
    simp [hp]
  · rename_i hp
    simp [hp]

theorem Proj1.ncpUsage_eq_fault {argv : List Bytes} : ncpUsage argv = .fault ↔
    ∃ name loss env sFname dest, argv = [name, loss, env, sFname, dest] ∧
      (0 ≤ atoi loss ∧ atoi loss ≤ 100) ∧ (pieces delims dest).length = 2 := by
  constructor
  · intro h
    unfold ncpUsage at h
    split at h
    · rename_i name loss env sFname dest
      rcases rate_cases loss with ⟨hrate, -⟩ | ⟨hrate, hrange⟩
      · rw [hrate] at h
        cases h
      · rw [hrate, Usage.parsed_bind, Usage.bind_eq_fault, ncpTarget_eq_fault] at h
        rcases h with htarget | ⟨a, -, h⟩
        · exact ⟨name, loss, env, sFname, dest, rfl, hrange, htarget⟩
        · cases h
    · cases h
  · rintro ⟨name, loss, env, sFname, dest, rfl, hrange, htarget⟩
    rcases rate_cases loss with ⟨-, hbad⟩ | ⟨hrate, -⟩
    · exact absurd hrange hbad
    · rw [ncpUsage, hrate, Usage.parsed_bind, ncpTarget_eq_fault.mpr htarget]
      rfl

theorem Proj1.tNcpUsage_eq_fault {argv : List Bytes} : tNcpUsage argv = .fault ↔
    ∃ name server, argv = [name, server] ∧ (pieces colon server).length = 1 := by
  constructor
  · intro h
    unfold tNcpUsage at h
    split at h
    · rename_i name server
      exact ⟨name, server, rfl, ((target_eq_fault (by simp)).mp h).2⟩
    · cases h
  · rintro ⟨name, server, rfl, hp⟩
    exact (target_eq_fault (by simp)).mpr ⟨rfl, hp⟩

theorem portUsage_ne_fault (argv : List Bytes) : portUsage argv ≠ .fault := by
  unfold portUsage
  split
  · exact number_ne_fault _
  · simp

theorem Proj1.rcvUsage_ne_fault (argv : List Bytes) : rcvUsage argv ≠ .fault := by
  intro h
  unfold rcvUsage at h
  split at h
  · rename_i name loss port env
    rcases rate_cases loss with ⟨hrate, -⟩ | ⟨hrate, -⟩
    · rw [hrate] at h
      cases h
    · rw [hrate, Usage.parsed_bind] at h
      rcases Usage.bind_eq_fault.mp h with h | ⟨n, -, h⟩
      · exact number_ne_fault port h
      · cases h
  · cases h

namespace Proj2

theorem rtSrvUsage_ne_fault (argv : List Bytes) : rtSrvUsage argv ≠ .fault := by
  unfold rtSrvUsage
  split <;> simp

theorem target_ne_fault (s : Bytes) :
    target (.help errorTarget) (.help errorTarget) s ≠ .fault := by
  rw [ne_eq, target_eq_fault (by simp)]
  simp

theorem rtRcvUsage_ne_fault (argv : List Bytes) : rtRcvUsage argv ≠ .fault := by
  intro h
  unfold rtRcvUsage at h
  split at h
  · rcases Usage.bind_eq_fault.mp h with h | ⟨a, -, h⟩
    · exact target_ne_fault _ h
    · cases h
  · cases h

theorem udpStreamUsage_ne_fault (argv : List Bytes) : udpStreamUsage argv ≠ .fault := by
  intro h
  unfold udpStreamUsage at h
  split at h
  · rcases Usage.bind_eq_fault.mp h with h | ⟨a, -, h⟩
    · exact target_ne_fault _ h
    · rcases Usage.bind_eq_fault.mp h with h | ⟨n, -, h⟩
      · exact number_ne_fault _ h
      · cases h
  · cases h

end Proj2

/-- `ncp` and `t_ncp` hand `atoi` the null pointer exactly when the address comes without a
port. The others never do. -/
theorem null_port (argv : List Bytes) :
    (Proj1.ncpUsage argv = .fault ↔ ∃ name loss env sFname dest,
      argv = [name, loss, env, sFname, dest] ∧ (0 ≤ atoi loss ∧ atoi loss ≤ 100) ∧
        (pieces Proj1.delims dest).length = 2) ∧
    (Proj1.tNcpUsage argv = .fault ↔
      ∃ name server, argv = [name, server] ∧ (pieces colon server).length = 1) ∧
    Proj1.rcvUsage argv ≠ .fault ∧ Proj1.tRcvUsage argv ≠ .fault ∧
    Proj2.rtSrvUsage argv ≠ .fault ∧ Proj2.rtRcvUsage argv ≠ .fault ∧
    Proj2.udpStreamUsage argv ≠ .fault ∧ Proj2.udpStreamRcvUsage argv ≠ .fault :=
  ⟨Proj1.ncpUsage_eq_fault, Proj1.tNcpUsage_eq_fault, Proj1.rcvUsage_ne_fault argv,
    portUsage_ne_fault argv, Proj2.rtSrvUsage_ne_fault argv, Proj2.rtRcvUsage_ne_fault argv,
    Proj2.udpStreamUsage_ne_fault argv, portUsage_ne_fault argv⟩

end Wan
