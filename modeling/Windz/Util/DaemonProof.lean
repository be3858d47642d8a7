import Mathlib.Data.List.TakeWhile
import Windz.Util.Daemon

/-!
# What is read of a process id

No NUL is written behind the digits, and none is put there by the reader unless they fill
the array. So the number read goes on with the digits that happen to stand behind it.
-/

namespace Windz

open Lib Config Strtol

namespace Daemon

variable {stack stack' : Vector UInt8 16} {p : Pid} {kill : Nat → KillResult}

/-! ## The digits -/

theorem isNumeral_pid (p : Pid) : IsNumeral 10 (numeral 10 p.val) p.val :=
  isNumeral_numeral (by decide) p.val

theorem digitValue_digit : ∀ d < 10, digitValue (zero + UInt8.ofNat d) = d := by decide

theorem pidText_digit (p : Pid) : ∀ c ∈ pidText p, IsDigit c := by
  intro c hc
  obtain ⟨d, hd, rfl⟩ := List.mem_map.mp hc
  have hlt := (isNumeral_pid p).digit d hd
  unfold IsDigit
  rw [digitValue_digit d hlt]
  exact hlt

theorem pidText_value (p : Pid) :
    Nat.ofDigits 10 ((pidText p).map digitValue).reverse = p.val := by
  have hmap : (pidText p).map digitValue = numeral 10 p.val := by
    unfold pidText
    rw [List.map_map]
    exact (List.map_congr_left fun d hd =>
      digitValue_digit d ((isNumeral_pid p).digit d hd)).trans (List.map_id _)
  rw [hmap, (isNumeral_pid p).value]

theorem pidText_ne_nil (p : Pid) : pidText p ≠ [] := by
  unfold pidText
  rw [ne_eq, List.map_eq_nil_iff]
  exact (isNumeral_pid p).ne_nil

/-- A `pid_t` has at most ten digits. -/
theorem pidText_length (p : Pid) : (pidText p).length ≤ 10 := by
  unfold pidText
  rw [List.length_map]
  exact numeral_length_le (by decide) (by decide) (Nat.lt_trans p.lt (by decide))

/-! ## The digits behind -/

/-- The digits that happen to stand in the array behind the number. -/
def junk (stack : Vector UInt8 16) (p : Pid) : Bytes :=
  digits 10 ((stack.toList.take 15).drop (pidText p).length)

/-- What is read with them. -/
def pidWithJunk (stack : Vector UInt8 16) (p : Pid) : Nat :=
  p.val * 10 ^ (junk stack p).length + Nat.ofDigits 10 ((junk stack p).map digitValue).reverse

/-- There are none, or they make no difference to an `int`. -/
def Harmless (stack : Vector UInt8 16) (p : Pid) : Prop :=
  junk stack p = [] ∨ pidWithJunk stack p % 2 ^ 32 = p.val

instance (stack : Vector UInt8 16) (p : Pid) : Decidable (Harmless stack p) :=
  inferInstanceAs (Decidable (_ ∨ _))

/-- The scan for digits passes no NUL. -/
theorem digits_takeWhile (s : Bytes) : digits 10 (s.takeWhile fun c => c ≠ nul) = digits 10 s := by
  induction s with
  | nil => rfl
  | cons c s ih =>
    unfold digits at ih ⊢
    by_cases hc : c = nul
    · rw [List.takeWhile_cons_of_neg (by simpa using hc), hc]
      rfl
    · rw [List.takeWhile_cons_of_pos (by simpa using hc)]
      by_cases hd : digitValue c < 10
      · rw [List.takeWhile_cons_of_pos (by simpa using hd),
          List.takeWhile_cons_of_pos (by simpa using hd), ih]
      · rw [List.takeWhile_cons_of_neg (by simpa using hd),
          List.takeWhile_cons_of_neg (by simpa using hd)]

/-- Nor does it pass the last byte, which is one. -/
theorem digits_nul (s : Bytes) (rest : Bytes) : digits 10 (s ++ nul :: rest) = digits 10 s := by
  unfold digits
  rw [List.takeWhile_append]
  split
  · rename_i hlen
    rw [List.takeWhile_cons_of_neg (by decide), List.append_nil,
      (List.takeWhile_prefix _).eq_of_length hlen]
  · rfl

/-- The number of a text that is put before another. -/
theorem ofDigits_append (s t : Bytes) :
    Nat.ofDigits 10 ((s ++ t).map digitValue).reverse
      = Nat.ofDigits 10 (s.map digitValue).reverse * 10 ^ t.length
        + Nat.ofDigits 10 (t.map digitValue).reverse := by
  rw [List.map_append, List.reverse_append, Nat.ofDigits_append, List.length_reverse,
    List.length_map, Nat.mul_comm, Nat.add_comm]

theorem junk_digit (stack : Vector UInt8 16) (p : Pid) : ∀ c ∈ junk stack p, IsDigit c := by
  intro c hc
  have hdigit := List.mem_takeWhile_imp (p := fun c => decide (digitValue c < 10)) hc
  exact of_decide_eq_true hdigit

/-- The array holds fifteen digits at most, so a `long` holds the number. -/
theorem pidWithJunk_lt (stack : Vector UInt8 16) (p : Pid) : pidWithJunk stack p < 10 ^ 15 := by
  have hlen := pidText_length p
  have hjunk : (junk stack p).length ≤ 15 - (pidText p).length := by
    refine Nat.le_trans (List.takeWhile_prefix _).length_le ?_
    rw [List.length_drop, List.length_take]
    omega
  have hall : ∀ d ∈ ((pidText p ++ junk stack p).map digitValue).reverse, d < 10 := by
    intro d hd
    obtain ⟨c, hc, rfl⟩ := List.mem_map.mp (List.mem_reverse.mp hd)
    rcases List.mem_append.mp hc with hc | hc
    · exact pidText_digit p c hc
    · exact junk_digit stack p c hc
  have hlt := Nat.ofDigits_lt_base_pow_length (by decide) hall
  rw [ofDigits_append, pidText_value, List.length_reverse, List.length_map, List.length_append]
    at hlt
  exact Nat.lt_of_lt_of_le hlt (Nat.pow_le_pow_right (by decide) (by omega))

/-- The array behind the `read`, with the NUL in its last byte. -/
theorem array_written (stack : Vector UInt8 16) (p : Pid) :
    (overwrite stack.toList 0 (pidText p)).set 15 nul
      = pidText p ++ ((stack.toList.take 15).drop (pidText p).length ++ [nul]) := by
  have hlen := pidText_length p
  have hstack : stack.toList.length = 16 := stack.length_toList
  obtain ⟨b, hb⟩ : ∃ b, stack.toList.drop 15 = [b] :=
    List.length_eq_one_iff.mp (by rw [List.length_drop, hstack])
  have htake : (stack.toList.take 15).length = 15 := by
    rw [List.length_take, hstack]
    rfl
  have hdrop : stack.toList.drop (pidText p).length
      = (stack.toList.take 15).drop (pidText p).length ++ [b] := by
    rw [← hb, ← List.drop_append_of_le_length (by omega), List.take_append_drop]
  have hfront : (pidText p ++ (stack.toList.take 15).drop (pidText p).length).length = 15 := by
    rw [List.length_append, List.length_drop, htake]
    omega
  unfold overwrite
  rw [List.take_zero, List.nil_append, Nat.zero_add, hdrop, ← List.append_assoc, List.set_append,
    hfront, if_neg (Nat.lt_irrefl 15), Nat.sub_self, List.set_cons_zero, List.append_assoc]

/-- **What is read** of a file that holds the digits of `p`. -/
theorem getPidFromFile_written (stack : Vector UInt8 16) (p : Pid) :
    getPidFromFile stack (some (writePidFile p))
      = Int.bmod (pidWithJunk stack p : Nat) (2 ^ 32) := by
  have hlen := pidText_length p
  have htake : (pidText p).take 16 = pidText p := List.take_of_length_le (by omega)
  have hnonul : ∀ c ∈ pidText p, decide (c ≠ nul) = true := by
    intro c hc
    refine decide_eq_true fun hnul => ?_
    have hrange := (pidText_digit p c hc).range
    rw [hnul] at hrange
    exact absurd hrange.1 (by decide)
  have hrest : digits 10 (((stack.toList.take 15).drop (pidText p).length ++ [nul]).takeWhile
      fun c => c ≠ nul) = junk stack p := by
    rw [digits_takeWhile, digits_nul]
    rfl
  have hlong : clampLong (pidWithJunk stack p : Nat) = (pidWithJunk stack p : Nat) := by
    have hlt := pidWithJunk_lt stack p
    unfold clampLong longMin longMax
    omega
  unfold getPidFromFile writePidFile atoi
  dsimp only
  rw [htake, if_neg (pidText_ne_nil p), array_written, List.takeWhile_append_of_pos hnonul,
    strtol_digits (pidText_ne_nil p) (pidText_digit p), hrest, ofDigits_append, pidText_value]
  exact congrArg (Int.bmod · (2 ^ 32)) hlong

/-- **When the number is read as it was written.** -/
theorem getPidFromFile_eq_iff (stack : Vector UInt8 16) (p : Pid) :
    getPidFromFile stack (some (writePidFile p)) = p.val ↔ Harmless stack p := by
  have hlt := p.lt
  rw [getPidFromFile_written, Int.bmod_def]
  unfold Harmless
  constructor
  · intro h
    right
    split at h <;> omega
  · intro h
    have hmod : pidWithJunk stack p % 2 ^ 32 = p.val := by
      rcases h with hnone | hmod
      · have hval : pidWithJunk stack p = p.val := by
          unfold pidWithJunk
          rw [hnone]
          simp
        rw [hval]
        exact Nat.mod_eq_of_lt (Nat.lt_trans hlt (by decide))
      · exact hmod
    split <;> omega

/-! ## Signals -/

/-- The process is sent `SIGQUIT`, and no other process is named in a call of `kill`. -/
def Signals (p : Pid) (calls : List Kill) : Prop :=
  (∃ c ∈ calls, c.signal = .quit) ∧ ∀ c ∈ calls, c.pid = p.val

theorem stopLoop_calls (kill : Nat → KillResult) (pid : Int) (n k : Nat) :
    ∀ c ∈ (stopLoop kill pid n k).1, c = ⟨pid, .quit⟩ := by
  induction n generalizing k with
  | zero => exact fun _ hc => absurd hc List.not_mem_nil
  | succ n ih =>
    unfold stopLoop
    split
    · exact fun c hc => List.mem_singleton.mp hc
    · intro c hc
      rcases List.mem_cons.mp hc with hc | hc
      · exact hc
      · exact ih (k + 1) c hc

/-- `Stop` signals the process it has read. -/
theorem stop_calls (kill : Nat → KillResult) {file : Option Bytes}
    (hpid : 0 < getPidFromFile stack file) :
    ∃ calls stopped, stop stack file kill = (⟨getPidFromFile stack file, .quit⟩ :: calls, stopped)
      ∧ ∀ c ∈ calls, c = ⟨getPidFromFile stack file, .quit⟩ := by
  unfold stop
  dsimp only
  rw [if_neg (by omega)]
  split
  · exact ⟨[], false, rfl, List.forall_mem_nil _⟩
  · exact ⟨_, _, rfl, stopLoop_calls kill _ 500 1⟩

theorem stop_none {file : Option Bytes} (hpid : getPidFromFile stack file ≤ 0) :
    stop stack file kill = ([], false) := by
  unfold stop
  dsimp only
  rw [if_pos hpid]

/-- **When `Stop` signals the recorded process** and no other. -/
theorem stop_signals_iff (stack : Vector UInt8 16) (p : Pid) (kill : Nat → KillResult) :
    Signals p (stop stack (some (writePidFile p)) kill).1 ↔ Harmless stack p := by
  rw [← getPidFromFile_eq_iff]
  have hpos := p.pos
  constructor
  · rintro ⟨⟨c, hc, -⟩, hall⟩
    by_cases hpid : 0 < getPidFromFile stack (some (writePidFile p))
    · obtain ⟨calls, stopped, hstop, -⟩ := stop_calls kill hpid
      rw [hstop] at hall
      exact hall _ List.mem_cons_self
    · rw [stop_none (by omega)] at hc
      exact absurd hc List.not_mem_nil
  · intro hread
    obtain ⟨calls, stopped, hstop, hcalls⟩ :=
      stop_calls kill (by rw [hread]; omega)
    rw [hstop]
    refine ⟨⟨_, List.mem_cons_self, rfl⟩, fun c hc => ?_⟩
    rcases List.mem_cons.mp hc with hc | hc
    · rw [hc]
      exact hread
    · rw [hcalls c hc]
      exact hread

/-- `Restart` asks for the recorded process, signals it when it is there, and names no other. -/
def RestartSignals (p : Pid) (stack stack' : Vector UInt8 16) (kill : Nat → KillResult) : Prop :=
  ⟨p.val, .none⟩ ∈ (restart stack stack' (some (writePidFile p)) kill).1
    ∧ (kill 0 = .ok → Signals p (restart stack stack' (some (writePidFile p)) kill).1)
    ∧ ∀ c ∈ (restart stack stack' (some (writePidFile p)) kill).1, c.pid = p.val

/-- **When `Restart` signals the recorded process** and no other, whatever `kill` answers: both
readings are to give the number. -/
theorem restart_signals_iff (stack stack' : Vector UInt8 16) (p : Pid) :
    (∀ kill, RestartSignals p stack stack' kill) ↔ Harmless stack p ∧ Harmless stack' p := by
  have hpos := p.pos
  constructor
  · intro h
    obtain ⟨hmem, hsignals, hall⟩ := h fun _ => .ok
    have hread : getPidFromFile stack (some (writePidFile p)) = p.val := by
      unfold restart at hmem hall
      dsimp only at hmem hall
      split at hmem
      · rw [if_pos ‹_›] at hall
        exact hall _ List.mem_cons_self
      · exact absurd hmem List.not_mem_nil
    refine ⟨(getPidFromFile_eq_iff stack p).mp hread, ?_⟩
    obtain ⟨⟨c, hc, hquit⟩, hother⟩ := hsignals rfl
    unfold restart at hc hother
    dsimp only at hc hother
    rw [if_pos (by rw [hread]; omega)] at hc hother
    rw [← stop_signals_iff stack' p fun _ => .ok]
    refine ⟨⟨c, ?_, hquit⟩, fun c hc => hother c (List.mem_cons_of_mem _ hc)⟩
    rcases List.mem_cons.mp hc with hc | hc
    · rw [hc] at hquit
      cases hquit
    · exact hc
  · rintro ⟨hfirst, hsecond⟩ kill
    have hread := (getPidFromFile_eq_iff stack p).mpr hfirst
    obtain ⟨⟨c, hc, hquit⟩, hall⟩ :=
      (stop_signals_iff stack' p fun k => kill (k + 1)).mpr hsecond
    unfold RestartSignals restart
    dsimp only
    rw [if_pos (by rw [hread]; omega), hread]
    cases kill 0 with
    | ok =>
      have hthem : ∀ c ∈ (⟨p.val, .none⟩ : Kill)
          :: (stop stack' (some (writePidFile p)) fun k => kill (k + 1)).1, c.pid = p.val :=
        List.forall_mem_cons.mpr ⟨rfl, hall⟩
      exact ⟨List.mem_cons_self, fun _ => ⟨⟨c, List.mem_cons_of_mem _ hc, hquit⟩, hthem⟩, hthem⟩
    | eperm =>
      refine ⟨List.mem_cons_self, fun hok => absurd hok (by decide), fun c hc => ?_⟩
      rw [List.mem_singleton.mp hc]
    | esrch =>
      refine ⟨List.mem_cons_self, fun hok => absurd hok (by decide), fun c hc => ?_⟩
      rw [List.mem_singleton.mp hc]

/-- **When a pidfile names its process.** For every process and whatever the arrays on the stack
held: what `WritePidFile` has written is read as the process id, `Stop` signals it and no other,
and so does `Restart`, exactly when the digits that stand behind the number are
harmless. -/
theorem pidfile_iff (stack stack' : Vector UInt8 16) (p : Pid) :
    (getPidFromFile stack (some (writePidFile p)) = p.val ↔ Harmless stack p)
      ∧ (∀ kill, Signals p (stop stack (some (writePidFile p)) kill).1 ↔ Harmless stack p)
      ∧ ((∀ kill, RestartSignals p stack stack' kill) ↔ Harmless stack p ∧ Harmless stack' p) :=
  ⟨getPidFromFile_eq_iff stack p, stop_signals_iff stack p, restart_signals_iff stack stack' p⟩

/-- Process 1, and an array full of `0` in which it becomes another. -/
theorem digits_behind_are_read : ¬ ∀ (stack : Vector UInt8 16) (p : Pid),
    getPidFromFile stack (some (writePidFile p)) = p.val := by
  intro hclaim
  have hharmless := (getPidFromFile_eq_iff _ _).mp
    (hclaim (Vector.replicate 16 zero) ⟨1, by decide, by decide⟩)
  exact absurd hharmless (by decide +kernel)

end Daemon

end Windz
