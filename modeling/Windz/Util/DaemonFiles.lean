import Windz.Lib.Descriptors

/-!
# The descriptors of a daemon

What `daemon::Start` does to the descriptors of the process that goes on: it opens the
pidfile twice, and `/dev/null` once, which it then gives to the standard streams. An
`ExitCaller` closes each again at the end of its function; that of `WritePidFile` is made
behind the test of the lock.

The descriptors are those of the caller, as both children have them. What the system calls
answer is up to the environment, but for `open`, which takes the lowest free descriptor.
-/

namespace Windz

open Lib Descriptors

namespace DaemonFiles

/-- What a descriptor is open on; the files of the program are of an arbitrary type. -/
inductive File (φ : Type) where
  /-- The pidfile. -/
  | pidfile
  /-- `/dev/null`. -/
  | devNull
  /-- A file of the program. -/
  | other (f : φ)
deriving DecidableEq

/-- The access mode of an `open`. -/
inductive Access where
  | rdonly
  | wronly
  | rdwr
deriving DecidableEq

/-- An open file description. -/
structure OpenFile (φ : Type) where
  /-- What was opened. -/
  file : File φ
  /-- For reading, writing or both. -/
  access : Access
deriving DecidableEq

/-- What the system calls of `Start` answer. -/
structure Answers where
  /-- `open` in `GetPidFromFile`. -/
  readable : Bool
  /-- A process with the id of the pidfile is there. -/
  found : Bool
  /-- `getppid` is not 1, and both calls of `fork` return 0. -/
  forked : Bool
  /-- `open` in `WritePidFile`. -/
  creatable : Bool
  /-- `lockf`. -/
  locked : Bool
  /-- `write`. -/
  written : Bool
  /-- `open` of `/dev/null`. -/
  devNull : Bool

variable {φ : Type}

/-- The table of `RLIMIT_NOFILE` descriptors. -/
abbrev Table (φ : Type) := Descriptors (OpenFile φ)

/-- `open`, which needs a free descriptor also where the file can be opened. -/
def openFile (ok : Bool) (f : OpenFile φ) (t : Table φ) : Option (Nat × Table φ) :=
  if ok then allocate f t else none

/-- `GetPidFromFile`. -/
def getPidFromFile (a : Answers) (t : Table φ) : Table φ :=
  match openFile a.readable ⟨.pidfile, .rdonly⟩ t with
  | none => t
  | some (fd, t) => release fd t

/-- `WritePidFile`, and what it returns. -/
def writePidFile (a : Answers) (t : Table φ) : Bool × Table φ :=
  match openFile a.creatable ⟨.pidfile, .wronly⟩ t with
  | none => (false, t)
  | some (fd, t) => if a.locked then (a.written, release fd t) else (false, t)

/-- `Start` in the process that goes on: what it returns, and the descriptors behind it. -/
def start (a : Answers) (t : Table φ) : Bool × Table φ :=
  let t := getPidFromFile a t
  if a.found ∨ ¬ a.forked then (false, t)
  else
    match writePidFile a t with
    | (false, t) => (false, t)
    | (true, t) =>
        -- the flags are 0, that is, `O_RDONLY`
        match openFile a.devNull ⟨.devNull, .rdonly⟩ t with
        | none => (false, t)
        | some (fd, t) => (true, release fd (dup fd 2 (dup fd 1 (dup fd 0 t))))

variable {a : Answers} {t t' : Table φ} {fd : Nat} {f : OpenFile φ}

theorem openFile_eq {ok : Bool} (h : openFile ok f t = some (fd, t')) :
    allocate f t = some (fd, t') := (Option.ite_none_right_eq_some.mp h).2

theorem getPidFromFile_eq (a : Answers) (t : Table φ) : getPidFromFile a t = t := by
  unfold getPidFromFile
  split
  · rfl
  · rename_i h
    exact release_allocate (openFile_eq h)

/-- `Start` gets as far as `lockf`, on the descriptor `fd`, and it fails. -/
structure LockFails (a : Answers) (t : Table φ) (fd : Nat) : Prop where
  /-- No daemon is running. -/
  notFound : a.found = false
  /-- This is the second child. -/
  forked : a.forked = true
  /-- The pidfile can be opened, -/
  creatable : a.creatable = true
  /-- as `fd`, -/
  opened : ∃ u, allocate (⟨.pidfile, .wronly⟩ : OpenFile φ) t = some (fd, u)
  /-- and not locked. -/
  notLocked : a.locked = false

/-- A pidfile that is opened and not locked stays open. -/
theorem writePidFile_unlocked (hcreatable : a.creatable = true) (hlocked : a.locked = false)
    (h : allocate ⟨.pidfile, .wronly⟩ t = some (fd, t')) :
    writePidFile a t = (false, t.set fd (some ⟨.pidfile, .wronly⟩)) := by
  unfold writePidFile openFile
  rw [if_pos hcreatable, h, (allocate_eq h).2]
  dsimp only
  rw [hlocked, if_neg (by simp)]

/-- Otherwise it is closed, if it was opened at all. -/
theorem writePidFile_kept (h : a.creatable = true → a.locked = false →
    allocate (⟨.pidfile, .wronly⟩ : OpenFile φ) t = none) : (writePidFile a t).2 = t := by
  unfold writePidFile
  split
  · rfl
  · rename_i fd u hopen
    split
    · exact release_allocate (openFile_eq hopen)
    · rename_i hlocked
      have hcreatable : a.creatable = true := (Option.ite_none_right_eq_some.mp hopen).1
      have hnone := h hcreatable (Bool.eq_false_iff.mpr hlocked)
      cases (openFile_eq hopen).symm.trans hnone

/-! ## The standard streams -/

/-- The three streams on what was opened as `fd`, which is closed then. -/
def redirect (fd : Nat) (t : Table φ) : Table φ := release fd (dup fd 2 (dup fd 1 (dup fd 0 t)))

theorem redirect_stream (h : allocate f t = some (fd, t')) (hlen : 3 ≤ t.length) {i : Nat}
    (hi : i < 3) : (redirect fd t')[i]? = some (if i = fd then none else some f) := by
  obtain ⟨hfree, ht'⟩ := allocate_eq h
  have hfd : fd < t.length := (List.getElem?_eq_some_iff.mp hfree).1
  have huse : ∀ {u : Table φ}, u.length = t.length → u[fd]? = some (some f) → ∀ j < 3,
      (dup fd j u)[fd]? = some (some f) ∧ (dup fd j u).length = t.length
        ∧ (dup fd j u)[j]? = some (some f) := by
    intro u hlength hu j hj
    have hself : (dup fd j u)[j]? = some (some f) := dup_self (by omega) hu
    refine ⟨?_, List.length_set.trans hlength, hself⟩
    by_cases he : j = fd
    · rw [he] at hself ⊢
      exact hself
    · rw [dup_ne he]
      exact hu
  have hopen : t'[fd]? = some (some f) := by
    rw [ht']
    exact use_set_self hfd _
  obtain ⟨h0, hlen0, hat0⟩ := huse (ht' ▸ List.length_set) hopen 0 (by decide)
  obtain ⟨h1, hlen1, hat1⟩ := huse hlen0 h0 1 (by decide)
  obtain ⟨h2, hlen2, hat2⟩ := huse hlen1 h1 2 (by decide)
  unfold redirect release
  by_cases he : i = fd
  · rw [if_pos he, he, use_set_self (hlen2 ▸ hfd)]
  · rw [if_neg he, use_set_ne fun hc => he hc.symm]
    match i, hi with
    | 0, _ => rw [dup_ne (by decide), dup_ne (by decide), hat0]
    | 1, _ => rw [dup_ne (by decide), hat1]
    | 2, _ => exact hat2

theorem redirect_above (h : allocate f t = some (fd, t')) {i : Nat} (hi : 3 ≤ i) :
    (redirect fd t')[i]? = t[i]? := by
  obtain ⟨hfree, ht'⟩ := allocate_eq h
  unfold redirect release
  by_cases he : fd = i
  · have hlt : fd < t.length := (List.getElem?_eq_some_iff.mp hfree).1
    rw [← he, hfree]
    refine use_set_self ?_ none
    unfold dup
    rw [List.length_set, List.length_set, List.length_set, ht', List.length_set]
    exact hlt
  · rw [use_set_ne he, dup_ne (by omega), dup_ne (by omega), dup_ne (by omega), ht', use_set_ne he]

/-- A `Start` that does not return true for what it did to the pidfile leaves the table. -/
theorem start_eq (a : Answers) (t : Table φ) :
    start a t = (false, t) ∨ a.found = false ∧ a.forked = true ∧
      start a t = match writePidFile a t with
        | (false, t) => (false, t)
        | (true, t) => match openFile a.devNull ⟨.devNull, .rdonly⟩ t with
          | none => (false, t)
          | some (fd, t) => (true, redirect fd t) := by
  unfold start
  rw [getPidFromFile_eq]
  dsimp only
  split
  · exact .inl rfl
  · rename_i h
    obtain ⟨hfound, hforked⟩ := not_or.mp h
    exact .inr ⟨Bool.eq_false_iff.mpr hfound, not_not.mp hforked, rfl⟩

/-- A lock that fails is the end of `Start`, with the pidfile open. -/
theorem LockFails.start (h : LockFails a t fd) :
    start a t = (false, t.set fd (some ⟨.pidfile, .wronly⟩)) := by
  obtain ⟨u, hopen⟩ := h.opened
  unfold DaemonFiles.start
  rw [getPidFromFile_eq]
  dsimp only
  rw [if_neg (by simp [h.notFound, h.forked]),
    writePidFile_unlocked h.creatable h.notLocked hopen]

theorem writePidFile_of_not_lockFails (hfound : a.found = false) (hforked : a.forked = true)
    (h : ∀ fd, ¬ LockFails a t fd) : (writePidFile a t).2 = t := by
  refine writePidFile_kept fun hcreatable hlocked => ?_
  cases hopen : allocate (⟨.pidfile, .wronly⟩ : OpenFile φ) t with
  | none => rfl
  | some r => exact absurd ⟨hfound, hforked, hcreatable, ⟨r.2, hopen⟩, hlocked⟩ (h r.1)

/-- `Start` that returns true. -/
theorem start_true (h : start a t = (true, t')) :
    ∃ fd u, allocate ⟨.devNull, .rdonly⟩ t = some (fd, u) ∧ t' = redirect fd u := by
  have hlock : ∀ fd, ¬ LockFails a t fd := fun fd hl => by
    rw [hl.start] at h
    cases h
  rcases start_eq a t with he | ⟨hfound, hforked, he⟩
  · rw [he] at h
    cases h
  · have hkept := writePidFile_of_not_lockFails hfound hforked hlock
    rw [he] at h
    split at h
    · cases h
    · rename_i t₁ hw
      rw [hw] at hkept
      rw [show t₁ = t from hkept] at h
      split at h
      · cases h
      · rename_i fd u hopen
        exact ⟨fd, u, openFile_eq hopen, (Prod.mk.inj h).2.symm⟩

/-- `Start` that returns false, but for a lock that fails. -/
theorem start_false (h : start a t = (false, t')) (hlock : ∀ fd, ¬ LockFails a t fd) : t' = t := by
  rcases start_eq a t with he | ⟨hfound, hforked, he⟩
  · exact (Prod.mk.inj (he.symm.trans h)).2.symm
  · have hkept := writePidFile_of_not_lockFails hfound hforked hlock
    rw [he] at h
    split at h
    · rename_i hw
      rw [hw] at hkept
      exact (Prod.mk.inj h).2.symm.trans hkept
    · rename_i hw
      rw [hw] at hkept
      split at h
      · exact (Prod.mk.inj h).2.symm.trans hkept
      · cases h

/-- **What `Start` does to the descriptors.** If it gets to `lockf` and that fails, it returns false
and the pidfile stays open, on the descriptor that was the lowest free one; whenever else it returns
false they are as before. If it returns true those from 3 on are as before, and the three streams
are on `/dev/null`, for reading only, if all of them were open; otherwise the lowest one that was
not is closed, so that the next file the daemon opens becomes that stream, and the other two are on
`/dev/null`. -/
theorem start_redirects (a : Answers) (t : Table φ) (hlen : 3 ≤ t.length) :
    (∀ fd, LockFails a t fd → start a t = (false, t.set fd (some ⟨.pidfile, .wronly⟩)))
    ∧ (∀ t', start a t = (false, t') → (∀ fd, ¬ LockFails a t fd) → t' = t)
    ∧ ∀ t', start a t = (true, t') → (∀ i, 3 ≤ i → t'[i]? = t[i]?)
      ∧ ((∀ i < 3, ∃ f, t[i]? = some (some f)) →
          ∀ i < 3, t'[i]? = some (some ⟨.devNull, .rdonly⟩))
      ∧ ∀ fd < 3, t[fd]? = some none → (∀ i < fd, ∃ f, t[i]? = some (some f)) →
          (∀ i < 3, i ≠ fd → t'[i]? = some (some ⟨.devNull, .rdonly⟩))
          ∧ ∀ f, allocate f t' = some (fd, t'.set fd (some f)) := by
  refine ⟨fun fd h => h.start, fun t' h hlock => start_false h hlock, fun t' h => ?_⟩
  obtain ⟨fd, u, hopen, rfl⟩ := start_true h
  have hstream : ∀ i < 3, (redirect fd u)[i]?
      = some (if i = fd then none else some ⟨.devNull, .rdonly⟩) :=
    fun i hi => redirect_stream hopen hlen hi
  obtain ⟨hfree, -⟩ := allocate_eq hopen
  refine ⟨fun i hi => redirect_above hopen hi, fun hall i hi => ?_, fun fd' hfd' hfree' hlow => ?_⟩
  · rw [hstream i hi, if_neg]
    rintro rfl
    obtain ⟨f, hf⟩ := hall i hi
    cases hf.symm.trans hfree
  · -- the lowest free descriptor is the one that was opened
    have he : fd' = fd := by
      rcases Nat.lt_trichotomy fd' fd with hlt | he | hlt
      · obtain ⟨f, hf⟩ := allocate_lowest hopen hlt
        cases hf.symm.trans hfree'
      · exact he
      · obtain ⟨f, hf⟩ := hlow fd hlt
        cases hf.symm.trans hfree
    rw [he] at hfd' ⊢
    have hothers : ∀ i < 3, i ≠ fd → (redirect fd u)[i]? = some (some ⟨.devNull, .rdonly⟩) := by
      intro i hi hne
      rw [hstream i hi, if_neg hne]
    refine ⟨hothers, fun f => allocate_of_lowest ?_ fun j hj => ?_⟩
    · rw [hstream fd hfd', if_pos rfl]
    · exact ⟨_, hothers j (Nat.lt_trans hj hfd') (Nat.ne_of_lt hj)⟩

/-- A daemon that was started with its standard output closed. -/
theorem start_redirects_small :
    let t : Table Unit := [some ⟨.other (), .rdwr⟩, none, some ⟨.other (), .rdwr⟩, none]
    ∃ t', start ⟨true, false, true, true, true, true, true⟩ t = (true, t')
      ∧ t'[0]? = some (some ⟨.devNull, .rdonly⟩)
      ∧ allocate ⟨.other (), .rdwr⟩ t' = some (1, t'.set 1 (some ⟨.other (), .rdwr⟩)) := by
  intro t
  have hmain :=
    (start_redirects ⟨true, false, true, true, true, true, true⟩ t (by decide)).2.2 _ rfl
  obtain ⟨hothers, hnext⟩ := hmain.2.2 1 (by decide) rfl fun i hi =>
    ⟨⟨.other (), .rdwr⟩, by rw [Nat.lt_one_iff.mp hi]; rfl⟩
  exact ⟨_, rfl, hothers 0 (by decide) (by decide), hnext _⟩

end DaemonFiles

end Windz
