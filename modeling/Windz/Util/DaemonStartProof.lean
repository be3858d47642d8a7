import Windz.Util.DaemonStart

/-!
# One daemon

While a process runs as a daemon, the pidfile holds its id and nobody writes. So a check whose
reading no writing has come between finds the process, and a process that has not found one
opens the pidfile for writing only when none runs.
-/

namespace Windz

open Lib Config

namespace Daemon

/-! ## The invariant -/

/-- What is known of a process at `l`. What it has read counts while nothing has changed since. -/
def Fits (s : Sys) (q : Pid) : Loc → Prop
  | .reading fd => s.seen q = s.changes → s.holder ≠ none → fd = s.path
  | .read pid => s.seen q = s.changes → ∀ h, s.holder = some h → pid = h.val
  | .checked | .session | .child => s.seen q = s.changes → s.holder = none
  | .truncated fd | .locked fd => s.writers = [q] ∧ s.path = some fd ∧ s.content fd = []
  | .written fd ok =>
      s.writers = [q] ∧ s.path = some fd ∧ (ok = true → s.content fd = writePidFile q)
  | .closed => s.writers = [q] ∧ ∃ i, s.path = some i ∧ s.content i = writePidFile q
  | .running => s.holder = some q
  | .gone | .calling | .refused | .exiting => True

/-- A place at which nothing is known. -/
def Idle : Loc → Prop
  | .gone | .calling | .refused | .exiting => True
  | _ => False

/-- A place in which a process is writing. -/
def Writing : Loc → Prop
  | .truncated _ | .locked _ | .written _ _ | .closed => True
  | _ => False

/-- The invariant of all processes and of the pidfile. -/
structure Inv (s : Sys) : Prop where
  procs : ∀ q, Fits s q (s.loc q)
  writers : ∀ q ∈ s.writers, Writing (s.loc q)
  seen : ∀ q, s.seen q ≤ s.changes
  /-- The pidfile holds the id of the process that runs. -/
  record : ∀ h, s.holder = some h → s.loc h = .running ∧ s.writers = []
    ∧ ∃ i, s.path = some i ∧ s.content i = writePidFile h

theorem inv_init {s : Sys} (h : s.Init) : Inv s where
  procs := by
    intro q
    rw [h.loc]
    trivial
  writers := by
    intro q hq
    rw [h.writers] at hq
    exact absurd hq List.not_mem_nil
  seen := by
    intro q
    rw [h.seen]
    exact Nat.zero_le _
  record := by
    intro p hp
    rw [h.holder] at hp
    cases hp

variable {s s' : Sys} {p q : Pid} {l : Loc}

theorem Idle.fits (hl : Idle l) : Fits s q l := by
  cases l with
  | gone => trivial
  | calling => trivial
  | refused => trivial
  | exiting => trivial
  | _ => exact hl.elim

theorem Fits.writers (h : Fits s q l) (hl : Writing l) : s.writers = [q] := by
  cases l with
  | truncated fd => exact h.1
  | locked fd => exact h.1
  | written fd ok => exact h.1
  | closed => exact h.1
  | _ => exact hl.elim

/-- Once something has changed, what was read is known to be nothing. -/
theorem Fits.stale (h : Fits s q l) (hw : ¬ Writing l) (hseen : s'.seen q ≠ s'.changes)
    (hrun : l = .running → s'.holder = some q) : Fits s' q l := by
  cases l with
  | reading fd => exact fun he => absurd he hseen
  | read pid => exact fun he => absurd he hseen
  | checked => exact fun he => absurd he hseen
  | session => exact fun he => absurd he hseen
  | child => exact fun he => absurd he hseen
  | truncated fd => exact absurd trivial hw
  | locked fd => exact absurd trivial hw
  | written fd ok => exact absurd trivial hw
  | closed => exact absurd trivial hw
  | running => exact hrun rfl
  | _ => trivial

/-! ## Moves -/

theorem Inv.fits (h : Inv s) (hp : s.loc p = l) : Fits s p l := by
  rw [← hp]
  exact h.procs p

theorem Inv.not_writer (h : Inv s) (hp : s.loc p = l) (hl : ¬ Writing l) : p ∉ s.writers := by
  intro hw
  rw [← hp] at hl
  exact hl (h.writers p hw)

theorem Inv.not_running (h : Inv s) (hnone : s.holder = none) : s.loc q ≠ .running := by
  intro hrun
  have hholder : s.holder = some q := h.fits hrun
  rw [hnone] at hholder
  cases hholder

/-- One process has moved to `l`. -/
theorem procs_update (hloc : s'.loc = Function.update s.loc p l) (hl : Fits s' p l)
    (hothers : ∀ q, q ≠ p → Fits s' q (s.loc q)) (q : Pid) : Fits s' q (s'.loc q) := by
  rw [hloc]
  by_cases hq : q = p
  · rw [hq, Function.update_self]
    exact hl
  · rw [Function.update_of_ne hq]
    exact hothers q hq

/-- **A process moves**, and what the others go by stays as it is. -/
theorem Inv.move (h : Inv s) (hloc : s'.loc = Function.update s.loc p l)
    (hpath : s'.path = s.path) (hcontent : s'.content = s.content)
    (hwriters : s'.writers = s.writers) (hchanges : s'.changes = s.changes)
    (hholder : s'.holder = s.holder) (hseen : ∀ q, q ≠ p → s'.seen q = s.seen q)
    (hle : s'.seen p ≤ s.changes) (hp : s.loc p ≠ .running) (hw : p ∈ s.writers → Writing l)
    (hl : Fits s' p l) : Inv s' where
  procs := by
    refine procs_update hloc hl fun q hq => ?_
    have hfits := h.procs q
    cases hloc : s.loc q <;> rw [hloc] at hfits <;>
      simp only [Fits, hpath, hcontent, hwriters, hchanges, hholder, hseen q hq] at hfits ⊢ <;>
      exact hfits
  writers := by
    intro q hq
    rw [hwriters] at hq
    rw [hloc]
    by_cases hqp : q = p
    · rw [hqp] at hq ⊢
      rw [Function.update_self]
      exact hw hq
    · rw [Function.update_of_ne hqp]
      exact h.writers q hq
  seen := by
    intro q
    rw [hchanges]
    by_cases hq : q = p
    · rw [hq]
      exact hle
    · rw [hseen q hq]
      exact h.seen q
  record := by
    intro r hr
    rw [hholder] at hr
    obtain ⟨hrun, hnone, hi⟩ := h.record r hr
    have hne : r ≠ p := fun he => hp (he ▸ hrun)
    rw [hloc, Function.update_of_ne hne, hwriters, hpath, hcontent]
    exact ⟨hrun, hnone, hi⟩

/-- Who is writing, writes alone, and no process runs. -/
theorem Inv.alone (h : Inv s) (hp : Writing (s.loc p)) :
    s.writers = [p] ∧ s.holder = none ∧ ∀ q, q ≠ p → ¬ Writing (s.loc q) := by
  have hwriters := (h.procs p).writers hp
  refine ⟨hwriters, ?_, fun q hq hwriting => ?_⟩
  · by_contra hne
    obtain ⟨r, hr⟩ := Option.ne_none_iff_exists'.mp hne
    have hnone := (h.record r hr).2.1
    rw [hwriters] at hnone
    cases hnone
  · have hq' := (h.procs q).writers hwriting
    rw [hwriters] at hq'
    exact hq (List.cons.inj hq').1.symm

/-- Behind a change, all that is known is of `p`. -/
theorem Inv.change (h : Inv s) (hloc : s'.loc = Function.update s.loc p l)
    (halone : ∀ q, q ≠ p → ¬ Writing (s.loc q)) (hnone : s.holder = none)
    (hchanges : s'.changes = s.changes + 1) (hseen : s'.seen = s.seen)
    (hwriters : ∀ q ∈ s'.writers, q = p ∧ Writing l) (hl : Fits s' p l)
    (hrecord : ∀ r, s'.holder = some r → r = p ∧ l = .running ∧ s'.writers = []
      ∧ ∃ i, s'.path = some i ∧ s'.content i = writePidFile p) : Inv s' where
  procs := by
    refine procs_update hloc hl fun q hq => ?_
    refine (h.procs q).stale (halone q hq) ?_ fun hrun => absurd hrun (h.not_running hnone)
    have hle := h.seen q
    rw [hseen, hchanges]
    omega
  writers := by
    intro q hq
    obtain ⟨hqp, hw⟩ := hwriters q hq
    rw [hloc, hqp, Function.update_self]
    exact hw
  seen := by
    intro q
    rw [hseen, hchanges]
    exact Nat.le_succ_of_le (h.seen q)
  record := by
    intro r hr
    obtain ⟨hrp, hrun, hw, hi⟩ := hrecord r hr
    rw [hloc, hrp, Function.update_self]
    exact ⟨hrun, hw, hi⟩

/-- What is known of a process that neither writes nor runs, when none runs. -/
theorem fits_free (hw : ¬ Writing l) (hrun : l ≠ .running) (hnone : s.holder = none) :
    Fits s q l := by
  cases l with
  | reading fd => exact fun _ hne => absurd hnone hne
  | read pid =>
    intro _ r hr
    rw [hnone] at hr
    cases hr
  | checked => exact fun _ => hnone
  | session => exact fun _ => hnone
  | child => exact fun _ => hnone
  | truncated fd => exact absurd trivial hw
  | locked fd => exact absurd trivial hw
  | written fd ok => exact absurd trivial hw
  | closed => exact absurd trivial hw
  | running => exact absurd rfl hrun
  | _ => trivial

/-- The process that ran runs no more, whatever becomes of the pidfile. -/
theorem Inv.freed (h : Inv s) (hholder : s.holder = some p)
    (hloc : s'.loc = Function.update s.loc p l) (hl : Idle l) (hwriters : s'.writers = [])
    (hnone : s'.holder = none) (hchanges : s'.changes = s.changes) (hseen : s'.seen = s.seen) :
    Inv s' where
  procs := by
    refine procs_update hloc hl.fits fun q hq => ?_
    refine fits_free (fun hw => ?_) (fun hrun => ?_) hnone
    · have hwrites := (h.procs q).writers hw
      rw [(h.record p hholder).2.1] at hwrites
      cases hwrites
    · have hother : s.holder = some q := h.fits hrun
      exact hq (Option.some.inj (hother.symm.trans hholder))
  writers := by
    intro q hq
    rw [hwriters] at hq
    exact absurd hq List.not_mem_nil
  seen := by
    intro q
    rw [hseen, hchanges]
    exact h.seen q
  record := by
    intro r hr
    rw [hnone] at hr
    cases hr

/-- **A process is done with `Start`**, or gone. -/
theorem Inv.quit (h : Inv s) (p : Pid) (hl : Idle l) : Inv (s.quit p l) := by
  by_cases hp : p ∈ s.writers
  · obtain ⟨hwriters, hnone, halone⟩ := h.alone (h.writers p hp)
    have hnil : s.writers.filter (· ≠ p) = [] := by
      rw [hwriters]
      simp
    refine h.change (p := p) (l := l) rfl halone hnone ?_ rfl ?_ hl.fits ?_
    · exact if_pos hp
    · intro q hq
      have hq : q ∈ s.writers.filter (· ≠ p) := hq
      rw [hnil] at hq
      exact absurd hq List.not_mem_nil
    · intro r hr
      have hr : (if s.holder = some p then none else s.holder) = some r := hr
      rw [hnone] at hr
      cases hr
  · have hsame : s.writers.filter (· ≠ p) = s.writers :=
      List.filter_eq_self.mpr fun q hq => decide_eq_true fun hqp => hp (hqp ▸ hq)
    by_cases hholder : s.holder = some p
    · have hnil := (h.record p hholder).2.1
      exact h.freed hholder rfl hl (hsame.trans hnil) (if_pos hholder) (if_neg hp) rfl
    · exact h.move (p := p) (l := l) rfl rfl rfl hsame (if_neg hp) (if_neg hholder)
        (fun _ _ => rfl) (h.seen p) (fun hrun => hholder (h.fits hrun)) (fun hw => absurd hw hp)
        hl.fits

/-! ## Steps -/

/-- The locks are no part of it. -/
theorem Inv.lock (h : Inv s) (lock : Nat → Option Pid) : Inv { s with lock } :=
  ⟨h.procs, h.writers, h.seen, h.record⟩

theorem named_eq {pid : Int} {r : Pid} (h : pid = r.val) : Sys.named pid = some r := by
  obtain ⟨v, hpos, hlt⟩ := r
  have hrange : 0 < pid ∧ pid < 2 ^ 31 := by
    rw [h]
    exact ⟨Int.natCast_pos.mpr hpos, by show (v : Int) < 2 ^ 31; omega⟩
  unfold Sys.named
  rw [dif_pos hrange, Option.some.injEq, Pid.mk.injEq, h]
  rfl

/-- **The check.** A process that goes on has read of no process that runs. -/
theorem Inv.check (h : Inv s) {pid : Int} (hp : s.loc p = .read pid)
    (hfound : ∀ r, Sys.named pid = some r → s.loc r = .gone) : Inv (s.goto p .checked) := by
  refine h.move (p := p) (l := .checked) rfl rfl rfl rfl rfl rfl (fun _ _ => rfl) (h.seen p)
    (by rw [hp]; exact fun he => by cases he) (fun hw => absurd hw (h.not_writer hp id))
    fun hseen => ?_
  by_contra hne
  obtain ⟨r, hr⟩ := Option.ne_none_iff_exists'.mp hne
  have hrun := (h.record r hr).1
  rw [hfound r (named_eq (h.fits hp hseen r hr))] at hrun
  cases hrun

/-- The way to the first `fork` and behind it. -/
theorem Inv.forked (h : Inv s) (hq : s.loc q = .gone) (hp : s.loc p = .checked ∨ s.loc p = .session)
    (hl : l = .session ∨ l = .child) :
    Inv { (s.quit p .gone).goto q l with seen := Function.update s.seen q (s.seen p) } := by
  have hpq : q ≠ p := by
    intro he
    rw [he] at hq
    rw [hq] at hp
    rcases hp with hp | hp
    · cases hp
    · cases hp
  have hquit : Inv (s.quit p .gone) := h.quit p trivial
  have hloc : (s.quit p .gone).loc q = .gone := by
    show Function.update s.loc p .gone q = .gone
    rw [Function.update_of_ne hpq]
    exact hq
  have hnone : s.seen p = s.changes → s.holder = none := by
    rcases hp with hp | hp
    · exact h.fits hp
    · exact h.fits hp
  have hwriters : p ∉ s.writers := by
    rcases hp with hp | hp
    · exact h.not_writer hp id
    · exact h.not_writer hp id
  have hchanges : (s.quit p .gone).changes = s.changes := if_neg hwriters
  have hfree : s.holder = none → (s.quit p .gone).holder = none := by
    intro hnone
    show (if s.holder = some p then none else s.holder) = none
    rw [hnone]
    exact if_neg (by simp)
  have hstale : Function.update s.seen q (s.seen p) q = (s.quit p .gone).changes →
      (s.quit p .gone).holder = none := by
    rw [Function.update_self, hchanges]
    exact fun hseen => hfree (hnone hseen)
  refine hquit.move (p := q) (l := l) rfl rfl rfl rfl rfl rfl
    (fun r hr => Function.update_of_ne hr _ _) ?_ (by rw [hloc]; exact fun he => by cases he)
    (fun hw => absurd hw (hquit.not_writer hloc id)) ?_
  · show Function.update s.seen q (s.seen p) q ≤ _
    rw [Function.update_self, hchanges]
    exact h.seen p
  · rcases hl with hl | hl
    · rw [hl]
      exact hstale
    · rw [hl]
      exact hstale

/-- **The open with truncation.** Nothing has changed since the check, so no process runs. -/
theorem Inv.openTrunc (h : Inv s) (hp : s.loc p = .child) (hnil : s.writers = [])
    (hseen : s.seen p = s.changes) :
    Inv { s.goto p (.truncated s.opened) with
      path := some s.opened
      content := Function.update s.content s.opened []
      next := s.next + 1
      writers := p :: s.writers
      changes := s.changes + 1 } := by
  have hnone : s.holder = none := h.fits hp hseen
  refine h.change (p := p) (l := .truncated s.opened) rfl (fun q _ hw => ?_) hnone rfl rfl ?_ ?_ ?_
  · have hwrites := (h.procs q).writers hw
    rw [hnil] at hwrites
    cases hwrites
  · intro q hq
    have hq : q ∈ p :: s.writers := hq
    rw [hnil] at hq
    exact ⟨List.mem_singleton.mp hq, trivial⟩
  · exact ⟨by show p :: s.writers = [p]; rw [hnil], rfl, Function.update_self _ _ _⟩
  · intro r hr
    have hr : s.holder = some r := hr
    rw [hnone] at hr
    cases hr

/-- **The process that writes goes on**, whatever it does to the pidfile. -/
theorem Inv.write (h : Inv s) (hp : Writing (s.loc p)) (hloc : s'.loc = Function.update s.loc p l)
    (hwriters : s'.writers = s.writers) (hholder : s'.holder = s.holder)
    (hchanges : s'.changes = s.changes) (hseen : s'.seen = s.seen) (hw : Writing l)
    (hl : Fits s' p l) : Inv s' := by
  obtain ⟨hone, hnone, halone⟩ := h.alone hp
  refine ⟨procs_update hloc hl fun q hq => ?_, fun q hq => ?_, fun q => ?_, fun r hr => ?_⟩
  · exact fits_free (halone q hq) (h.not_running hnone) (hholder.trans hnone)
  · rw [hwriters, hone] at hq
    rw [hloc, List.mem_singleton.mp hq, Function.update_self]
    exact hw
  · rw [hseen, hchanges]
    exact h.seen q
  · rw [hholder, hnone] at hr
    cases hr

/-- **`Start` returns true.** -/
theorem Inv.started (h : Inv s) (hp : s.loc p = .closed) :
    Inv { s.quit p .running with holder := some p } := by
  obtain ⟨hone, hnone, halone⟩ := h.alone (p := p) (by rw [hp]; trivial)
  have hmem : p ∈ s.writers := by
    rw [hone]
    exact List.mem_cons_self
  have hnil : s.writers.filter (· ≠ p) = [] := by
    rw [hone]
    simp
  refine h.change (p := p) (l := .running) rfl halone hnone (if_pos hmem) rfl ?_ rfl ?_
  · intro q hq
    have hq : q ∈ s.writers.filter (· ≠ p) := hq
    rw [hnil] at hq
    exact absurd hq List.not_mem_nil
  · intro r hr
    exact ⟨(Option.some.inj hr).symm, rfl, hnil, (h.fits hp).2⟩

/-- A step that moves only `p`, and neither from writing nor from running. -/
theorem Inv.goto (h : Inv s) (hp : ¬ Writing (s.loc p)) (hrun : s.loc p ≠ .running)
    (hl : Fits (s.goto p l) p l) : Inv (s.goto p l) :=
  h.move (p := p) (l := l) rfl rfl rfl rfl rfl rfl (fun _ _ => rfl) (h.seen p) hrun
    (fun hw => absurd (h.writers p hw) hp) hl

/-- **The open for the check**, which does not fail when there is a pidfile. -/
theorem Inv.openRead {ok : Bool} (h : Inv s) (hp : s.loc p = .calling)
    (hok : ok = true ∨ s.path = none) :
    Inv { s.goto p (.reading (if ok then s.path else none)) with
      seen := Function.update s.seen p s.changes } := by
  refine h.move (p := p) rfl rfl rfl rfl rfl rfl (fun q hq => Function.update_of_ne hq _ _)
    (Nat.le_of_eq (Function.update_self _ _ _)) (by rw [hp]; exact fun he => by cases he)
    (fun hw => absurd hw (h.not_writer hp id)) fun _ _ => ?_
  rcases hok with hok | hok
  · exact if_pos hok
  · show (if ok = true then s.path else none) = s.path
    rw [hok]
    exact ite_self _

/-- **The reading.** The pidfile that was opened is the one that holds the id. -/
theorem Inv.read {fd : Option Nat} {stack : Vector UInt8 16} (h : Inv s)
    (hp : s.loc p = .reading fd) (hok : ∀ r ∈ s.holder, Harmless stack r) :
    Inv (s.goto p (.read (getPidFromFile stack (fd.map s.content)))) := by
  refine h.goto (by rw [hp]; exact id) (by rw [hp]; exact fun he => by cases he) fun hseen r hr => ?_
  have hr : s.holder = some r := hr
  obtain ⟨-, -, i, hi, hcontent⟩ := h.record r hr
  have hfd : fd = some i :=
    (h.fits hp hseen (by rw [hr]; exact Option.some_ne_none _)).trans hi
  rw [hfd, Option.map_some, hcontent]
  exact (getPidFromFile_eq_iff stack r).mpr (hok r hr)

/-- **The `write`.** The file is empty before it. -/
theorem Inv.wrote {fd : Nat} (h : Inv s) (hp : s.loc p = .locked fd) (text : Bytes) :
    Inv { s.goto p (.written fd (text = writePidFile p)) with
      content := Function.update s.content fd (text ++ (s.content fd).drop text.length) } := by
  obtain ⟨hone, hpath, hempty⟩ := h.fits hp
  refine h.write (p := p) (by rw [hp]; trivial) rfl rfl rfl rfl rfl trivial
    ⟨hone, hpath, fun hall => ?_⟩
  rw [decide_eq_true_iff] at hall
  show Function.update s.content fd _ fd = _
  rw [Function.update_self, hempty, List.drop_nil, List.append_nil]
  exact hall

/-- **The exit** of the process that runs, which unlinks the pidfile. -/
theorem Inv.exited (h : Inv s) (hp : s.loc p = .running) :
    Inv { s.quit p .exiting with path := none } := by
  have hholder : s.holder = some p := h.fits hp
  have hnil := (h.record p hholder).2.1
  refine h.freed hholder rfl trivial ?_ (if_pos hholder) (if_neg ?_) rfl
  · show s.writers.filter _ = []
    rw [hnil]
    rfl
  · rw [hnil]
    exact List.not_mem_nil

/-- **Each step keeps the invariant.** -/
theorem inv_step {a : Label} (h : Inv s) (hok : Apart s a) (hstep : s.step a = some s') :
    Inv s' := by
  cases a with
  | call p =>
    simp only [Sys.step] at hstep
    split at hstep
    · rename_i hp
      cases hstep
      exact h.goto (by rw [hp]; exact id) (by rw [hp]; exact fun he => by cases he) trivial
    · cases hstep
  | openRead p ok =>
    simp only [Sys.step] at hstep
    split at hstep
    · rename_i hp
      cases hstep
      exact h.openRead hp hok
    · cases hstep
  | read p stack =>
    simp only [Sys.step] at hstep
    split at hstep
    · rename_i fd hp
      cases hstep
      exact h.read hp hok
    · cases hstep
  | check p found =>
    simp only [Sys.step] at hstep
    split at hstep
    · rename_i pid hp
      split at hstep
      · rename_i hnone
        cases hstep
        refine h.check hp fun r hr => ?_
        rw [hnone] at hr
        cases hr
      · rename_i q hq
        split at hstep
        · cases hstep
        rename_i hfound
        split at hstep
        · cases hstep
          exact h.quit p trivial
        · rename_i hnot
          cases hstep
          refine h.check hp fun r hr => ?_
          rw [hq] at hr
          cases hr
          by_contra hne
          exact hfound ⟨hne, hnot⟩
    · cases hstep
  | refuse p =>
    simp only [Sys.step] at hstep
    split at hstep
    · cases hstep
      exact h.quit p trivial
    · cases hstep
      exact h.quit p trivial
    · cases hstep
  | fork p q =>
    simp only [Sys.step] at hstep
    split at hstep
    · cases hstep
    rename_i hq
    rw [not_not] at hq
    split at hstep
    · rename_i hp
      cases hstep
      exact h.forked hq (.inl hp) (.inl rfl)
    · rename_i hp
      cases hstep
      exact h.forked hq (.inr hp) (.inr rfl)
    · cases hstep
  | openTrunc p ok =>
    simp only [Sys.step] at hstep
    split at hstep
    · rename_i hp
      split at hstep
      · rename_i hopen
        cases hstep
        exact h.openTrunc hp (hok hopen).1 (hok hopen).2
      · cases hstep
        exact h.quit p trivial
    · cases hstep
  | lock p ok =>
    simp only [Sys.step] at hstep
    split at hstep
    · rename_i fd hp
      split at hstep
      · split at hstep
        · cases hstep
          exact h.write (p := p) (l := .locked fd) (by rw [hp]; trivial) rfl rfl rfl rfl rfl trivial
            (h.fits hp)
        · cases hstep
      · cases hstep
        exact h.quit p trivial
    · cases hstep
  | write p count =>
    simp only [Sys.step] at hstep
    split at hstep
    · rename_i fd hp
      cases hstep
      exact h.wrote hp ((writePidFile p).take count)
    · cases hstep
  | close p =>
    simp only [Sys.step] at hstep
    split at hstep
    · rename_i fd ok hp
      obtain ⟨hone, hpath, hall⟩ := h.fits hp
      split at hstep
      · rename_i hok
        cases hstep
        exact (h.lock _).write (p := p) (l := .closed) (by show Writing (s.loc p); rw [hp]; trivial)
          rfl rfl rfl rfl rfl trivial ⟨hone, fd, hpath, hall hok⟩
      · cases hstep
        exact (h.lock _).quit p trivial
    · cases hstep
  | devNull p ok =>
    simp only [Sys.step] at hstep
    split at hstep
    · rename_i hp
      split at hstep
      · cases hstep
        exact h.started hp
      · cases hstep
        exact h.quit p trivial
    · cases hstep
  | exit p =>
    simp only [Sys.step] at hstep
    split at hstep
    · rename_i hp
      cases hstep
      exact h.exited hp
    · cases hstep
  | die p =>
    simp only [Sys.step] at hstep
    split at hstep
    · cases hstep
    · cases hstep
      exact (h.quit p (l := .gone) trivial).lock _

/-- **At most one daemon.** In every state that processes reach which are kept apart, only one of
them has got true and still runs. -/
theorem one_daemon (h : Reachable starts Apart s) :
    ∀ p q, s.loc p = .running → s.loc q = .running → p = q := by
  intro p q hp hq
  have hinv : Inv s := h.invariant (fun _ hinit => inv_init hinit)
    fun _ _ _ _ hinv hok hstep => inv_step hinv hok hstep
  have hpholder : s.holder = some p := hinv.fits hp
  have hqholder : s.holder = some q := hinv.fits hq
  exact Option.some.inj (hpholder.symm.trans hqholder)

/-! ## Two runs -/

/-- No process, and no pidfile. -/
def Sys.empty : Sys :=
  { loc := fun _ => .gone, path := none, content := fun _ => [], lock := fun _ => none, next := 0
    writers := [], changes := 0, seen := fun _ => 0, holder := none }

theorem Sys.init_empty : Sys.empty.Init :=
  ⟨fun _ => rfl, fun _ => rfl, rfl, rfl, fun _ => rfl, rfl⟩

/-- Three processes: the one that calls `Start`, and its descendants. -/
def pid (n : Nat) (h : 0 < n ∧ n < 2 ^ 31 := by decide) : Pid := ⟨n, h.1, h.2⟩

/-- Up to the second `fork`, when no process is found. -/
def checking (p q r : Pid) : List Label :=
  [.call p, .openRead p true, .read p (Vector.replicate 16 nul), .check p false, .fork p q,
    .fork q r]

/-- From there to the end. -/
def writing (r : Pid) : List Label :=
  [.openTrunc r true, .lock r true, .write r 16, .close r, .devNull r true]

/-- One process starts, and another finds it. -/
theorem one_daemon_small : ∃ s, Reachable starts Apart s ∧ s.loc (pid 7) = .running
    ∧ s.loc (pid 8) = .refused ∧ ∀ q, s.loc q = .running → q = pid 7 := by
  have hrun : ((starts.exec Apart Sys.empty (checking (pid 5) (pid 6) (pid 7) ++ writing (pid 7)
      ++ [.call (pid 8), .openRead (pid 8) true, .read (pid 8) (Vector.replicate 16 nul),
        .check (pid 8) true])).map
      fun s => decide (s.loc (pid 7) = .running ∧ s.loc (pid 8) = .refused)) = some true := by
    decide +kernel
  obtain ⟨s, hs, hloc⟩ := Machine.exec_reachable Sys.init_empty hrun
  obtain ⟨hseven, height⟩ := of_decide_eq_true hloc
  exact ⟨s, hs, hseven, height, fun q hq => one_daemon hs q (pid 7) hq hseven⟩

/-- Two processes check one after the other, and then write one after the other. -/
theorem both_get_true : ¬ ∀ s, Reachable starts (fun _ _ => True) s →
    ∀ p q, s.loc p = .running → s.loc q = .running → p = q := by
  intro hclaim
  have hrun : ((starts.exec (fun _ _ => True) Sys.empty (checking (pid 5) (pid 6) (pid 7)
      ++ checking (pid 8) (pid 9) (pid 10) ++ writing (pid 7) ++ writing (pid 10))).map
      fun s => decide (s.loc (pid 7) = .running ∧ s.loc (pid 10) = .running)) = some true := by
    decide +kernel
  obtain ⟨s, hs, hloc⟩ := Machine.exec_reachable Sys.init_empty hrun
  obtain ⟨hseven, hten⟩ := of_decide_eq_true hloc
  exact absurd (hclaim s hs (pid 7) (pid 10) hseven hten) (by decide)

end Daemon

end Windz
