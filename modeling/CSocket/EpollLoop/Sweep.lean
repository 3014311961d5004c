import CSocket.EpollLoop.Table
import Mathlib.Order.Interval.Finset.Nat
/-!
# The idle sweep

`checkpos` goes round the client slots. It is wrapped at the start of the next check, so
that it can rest at `MAX_EVENTS` between two passes; what counts is the slot that the next
check will look at, `Loop.pos`. Nothing here asks what the table holds or what changes it
between the passes (`Passes.rest`).
-/
namespace CSocket.EpollLoop
open Epoll

/-! ## The property -/

/-- In use, and without activity for a minute. -/
def Idle (now : Int) (e : MyeventS) : Prop := e.status = 1 ∧ now - e.lastActive ≥ 60

instance (now : Int) (e : MyeventS) : Decidable (Idle now e) := inferInstanceAs (Decidable (_ ∧ _))

/-- The check of slot `ev` closes the descriptor of an idle connection, frees its slot and
leaves everything else alone. -/
structure Exact (now : Int) (ev : Nat) (s s' : Loop) : Prop where
  closes : ∀ fd ∈ s.efd.opened, fd ∉ s'.efd.opened ↔ Idle now (s.gEvents ev) ∧ fd = (s.gEvents ev).fd
  frees : Idle now (s.gEvents ev) → s'.gEvents ev = { s.gEvents ev with status := 0 } ∧
    ∀ r, r ∈ s'.efd.set ↔ r ∈ s.efd.set ∧ r.fd ≠ (s.gEvents ev).fd
  spares : ¬ Idle now (s.gEvents ev) → s'.gEvents ev = s.gEvents ev ∧ s'.efd = s.efd
  others : ∀ ev', ev' ≠ ev → s'.gEvents ev' = s.gEvents ev'

/-- A check: the time of its pass, and the state in which it is made. -/
structure Visit where
  now : Int
  before : Loop

section
variable (MAX_EVENTS : Nat)

/-- The slot that the check looks at. -/
def Visit.ev (v : Visit) : Nat := v.before.pos MAX_EVENTS

def Visit.after (v : Visit) : Loop := check MAX_EVENTS v.now v.before

/-- The checks of `sweep`. -/
def visits (now : Int) : Nat → Loop → List Visit
  | 0, _ => []
  | n + 1, s => ⟨now, s⟩ :: visits now n (check MAX_EVENTS now s)

/-- Passes of the sweep, in batches of any size, and anything between them that does not
write `checkpos`; with the checks that were made. -/
inductive Passes (s : Loop) : List Visit → Loop → Prop
  | start : Passes s [] s
  | pass {vs s1} (now : Int) (batch : Nat) : Passes s vs s1 →
      Passes s (vs ++ visits MAX_EVENTS now batch s1) (sweep MAX_EVENTS now batch s1)
  | rest {vs s1 s2} : Passes s vs s1 → s2.checkpos = s1.checkpos → Passes s vs s2

/-- The checks are made in turn, each is exact, and the listening slot is left out. -/
structure Fair (vs : List Visit) : Prop where
  turn : ∀ k v, vs[k]? = some v → v.ev MAX_EVENTS = k % MAX_EVENTS
  window : ∀ i, i + MAX_EVENTS ≤ vs.length →
    (((vs.drop i).take MAX_EVENTS).map (Visit.ev MAX_EVENTS)).Perm (List.range MAX_EVENTS)
  exact : ∀ v ∈ vs, Exact v.now (v.ev MAX_EVENTS) v.before (v.after MAX_EVENTS)
  listening : ∀ v ∈ vs, v.ev MAX_EVENTS ≠ MAX_EVENTS ∧
    (v.after MAX_EVENTS).gEvents MAX_EVENTS = v.before.gEvents MAX_EVENTS

/-- The checks that a step of the main loop makes. -/
def stepVisits (s : Loop) : LoopAct → List Visit
  | .sweep now => visits MAX_EVENTS now 100 s
  | .wait _ => []
  | .test _ => []

def runVisits : List LoopAct → Loop → List Visit
  | [], _ => []
  | a :: as, s => stepVisits MAX_EVENTS s a ++ ((loopStep MAX_EVENTS s a).map (runVisits as)).getD []

end

section
variable {MAX_EVENTS : Nat} {s s' : Loop}

/-! ## One check -/

theorem check_eq (now : Int) (s : Loop) : check MAX_EVENTS now s =
    if Idle now (s.gEvents (s.pos MAX_EVENTS)) then
      (({ s with checkpos := s.pos MAX_EVENTS + 1 }.close (s.gEvents (s.pos MAX_EVENTS)).fd).setEv (s.pos MAX_EVENTS)
        { s.gEvents (s.pos MAX_EVENTS) with status := 0 }).ctl .del
        ⟨(s.gEvents (s.pos MAX_EVENTS)).fd, s.pos MAX_EVENTS, 0⟩
    else { s with checkpos := s.pos MAX_EVENTS + 1 } := by
  unfold check
  dsimp only
  by_cases hst : (s.gEvents (s.pos MAX_EVENTS)).status = 1
  · rw [if_neg (by simpa using hst)]
    by_cases hold : now - (s.gEvents (s.pos MAX_EVENTS)).lastActive ≥ 60
    · rw [if_pos hold, if_pos ⟨hst, hold⟩, eventdel_eq (by exact hst)]
      rfl
    · rw [if_neg hold, if_neg fun h => hold h.2]
  · rw [if_pos hst, if_neg fun h => hst h.1]

theorem check_checkpos (now : Int) (s : Loop) : (check MAX_EVENTS now s).checkpos = s.pos MAX_EVENTS + 1 := by
  rw [check_eq]
  split <;> rfl

theorem check_exact (now : Int) (s : Loop) : Exact now (s.pos MAX_EVENTS) s (check MAX_EVENTS now s) := by
  rw [check_eq]
  split
  case isTrue hidle =>
    refine ⟨fun fd hopen => ?_, fun _ => ⟨by simp, fun r => ?_⟩, fun hno => absurd hidle hno, fun ev' hne => by simp [hne]⟩
    · simp [hopen, hidle]
    · simp only [Loop.ctl_efd, Loop.setEv_efd, Loop.close_efd, Kernel.ctl_del.2, Kernel.mem_close, and_assoc, and_self]
  case isFalse hno =>
    refine ⟨fun fd hopen => ?_, fun hidle => absurd hidle hno, fun _ => ⟨rfl, rfl⟩, fun _ _ => rfl⟩
    exact ⟨fun hclosed => absurd hopen hclosed, fun h => absurd h.1 hno⟩

/-! ## The turn -/

/-- After `k` checks. -/
structure Turn (MAX_EVENTS k : Nat) (s : Loop) : Prop where
  le : s.checkpos ≤ MAX_EVENTS
  pos : s.pos MAX_EVENTS = k % MAX_EVENTS

theorem Turn.lt {k : Nat} (hpos : 1 ≤ MAX_EVENTS) (h : Turn MAX_EVENTS k s) : s.pos MAX_EVENTS < MAX_EVENTS :=
  h.pos ▸ Nat.mod_lt k hpos

theorem Turn.congr {k : Nat} (h : Turn MAX_EVENTS k s) (hc : s'.checkpos = s.checkpos) : Turn MAX_EVENTS k s' := by
  refine ⟨hc ▸ h.le, ?_⟩
  rw [Loop.pos, hc]
  exact h.pos

/-- Also where the position comes to rest at `MAX_EVENTS`. -/
theorem Turn.check {k : Nat} (hpos : 1 ≤ MAX_EVENTS) (h : Turn MAX_EVENTS k s) (now : Int) :
    Turn MAX_EVENTS (k + 1) (check MAX_EVENTS now s) := by
  have hlt := h.lt hpos
  refine ⟨by rw [check_checkpos]; exact hlt, ?_⟩
  have hmod : (k + 1) % MAX_EVENTS = (k % MAX_EVENTS + 1) % MAX_EVENTS := (Nat.mod_add_mod k MAX_EVENTS 1).symm
  rw [Loop.pos, check_checkpos, h.pos, hmod]
  rw [h.pos] at hlt
  split
  case isTrue hend => rw [hend, Nat.mod_self]
  case isFalse hne => exact (Nat.mod_eq_of_lt (by omega)).symm

theorem length_visits (now : Int) (n : Nat) (s : Loop) : (visits MAX_EVENTS now n s).length = n := by
  induction n generalizing s with
  | zero => rfl
  | succ n ih => rw [visits, List.length_cons, ih]

theorem visits_ev {k : Nat} (hpos : 1 ≤ MAX_EVENTS) (now : Int) (n : Nat) (h : Turn MAX_EVENTS k s) :
    (visits MAX_EVENTS now n s).map (Visit.ev MAX_EVENTS) = (List.range' k n).map (· % MAX_EVENTS) := by
  induction n generalizing s k with
  | zero => rfl
  | succ n ih =>
    rw [visits, List.map_cons, List.range'_succ, List.map_cons, ih (h.check hpos now)]
    congr 1
    exact h.pos

theorem sweep_turn {k : Nat} (hpos : 1 ≤ MAX_EVENTS) (now : Int) (n : Nat) (h : Turn MAX_EVENTS k s) :
    Turn MAX_EVENTS (k + n) (sweep MAX_EVENTS now n s) := by
  induction n generalizing s k with
  | zero => exact h
  | succ n ih =>
    have hrest := ih (h.check hpos now)
    rwa [Nat.add_right_comm] at hrest

/-- All passes together are one walk round the table. -/
theorem Passes.turn {vs : List Visit} (hpos : 1 ≤ MAX_EVENTS) (h0 : s.checkpos = 0) (h : Passes MAX_EVENTS s vs s') :
    Turn MAX_EVENTS vs.length s' ∧
      vs.map (Visit.ev MAX_EVENTS) = (List.range' 0 vs.length).map (· % MAX_EVENTS) := by
  induction h with
  | start =>
    refine ⟨⟨by rw [h0]; exact Nat.zero_le _, ?_⟩, rfl⟩
    rw [Loop.pos, h0, List.length_nil, Nat.zero_mod]
    split <;> rfl
  | pass now batch _ ih =>
    obtain ⟨hturn, hmap⟩ := ih
    rw [List.length_append, length_visits, List.map_append, hmap, visits_ev hpos now batch hturn]
    refine ⟨sweep_turn hpos now batch hturn, ?_⟩
    rw [← List.range'_append_1, List.map_append, Nat.zero_add]
  | rest _ hc ih => exact ⟨ih.1.congr hc, ih.2⟩

/-- As many numbers in a row as there are slots name each slot once. -/
theorem perm_mod (i n : Nat) : ((List.range' i n).map (· % n)).Perm (List.range n) := by
  have hwindow : ((List.range' i n : List Nat) : Multiset Nat) = Multiset.Ico i (i + n) := by
    show _ = ((List.range' i (i + n - i) : List Nat) : Multiset Nat)
    rw [Nat.add_sub_cancel_left]
  have hmod := Nat.multiset_Ico_map_mod i n
  rw [← hwindow, Multiset.map_coe] at hmod
  exact Multiset.coe_eq_coe.mp hmod

theorem Passes.fair {vs : List Visit} (hpos : 1 ≤ MAX_EVENTS) (h0 : s.checkpos = 0) (h : Passes MAX_EVENTS s vs s') :
    Fair MAX_EVENTS vs := by
  obtain ⟨-, hmap⟩ := h.turn hpos h0
  have hturn (k : Nat) (v : Visit) (hv : vs[k]? = some v) : v.ev MAX_EVENTS = k % MAX_EVENTS := by
    have hlt := (List.getElem?_eq_some_iff.mp hv).1
    have hk := congrArg (·[k]?) hmap
    simp only [List.getElem?_map, hv, List.getElem?_range' hlt, Option.map_some, Option.some.injEq] at hk
    rw [hk]
    congr 1
    omega
  refine ⟨hturn, fun i hi => ?_, fun v _ => check_exact v.now v.before, fun v hv => ?_⟩
  · rw [List.map_take, List.map_drop, hmap, ← List.map_drop, ← List.map_take, List.drop_range',
      List.take_range'_of_length_ge (by omega)]
    exact perm_mod _ _
  · obtain ⟨k, hk⟩ := List.mem_iff_getElem?.mp hv
    have hne : v.ev MAX_EVENTS ≠ MAX_EVENTS := by
      rw [hturn k v hk]
      exact Nat.ne_of_lt (Nat.mod_lt k hpos)
    exact ⟨hne, (check_exact v.now v.before).others MAX_EVENTS hne.symm⟩

/-! ## The main loop -/

@[simp] theorem setEv_checkpos (s : Loop) (ev : Nat) (e : MyeventS) : (s.setEv ev e).checkpos = s.checkpos := rfl
@[simp] theorem ctl_checkpos (s : Loop) (op : Op) (r : Reg Nat) : (s.ctl op r).checkpos = s.checkpos := rfl
@[simp] theorem close_checkpos (s : Loop) (fd : Nat) : (s.close fd).checkpos = s.checkpos := rfl

@[simp] theorem eventset_checkpos (s : Loop) (ev fd : Nat) (callBack : CallBack) (arg : Nat) (time : Int) :
    (eventset s ev fd callBack arg time).checkpos = s.checkpos := rfl

@[simp] theorem eventadd_checkpos (s : Loop) (events ev : Nat) : (eventadd s events ev).checkpos = s.checkpos := by
  unfold eventadd
  dsimp only
  split <;> rfl

@[simp] theorem eventdel_checkpos (s : Loop) (ev : Nat) : (eventdel s ev).checkpos = s.checkpos := by
  unfold eventdel
  dsimp only
  split <;> rfl

/-- Only the sweep moves the position. -/
theorem callBack_checkpos {io : Io} {e : Reg Nat} (h : callBack MAX_EVENTS io e s = some s') :
    s'.checkpos = s.checkpos := by
  unfold callBack at h
  dsimp only at h
  split at h
  · cases h
    unfold acceptconn
    split
    · rfl
    · dsimp only
      split
      · rfl
      · split
        · rfl
        · rw [eventadd_checkpos]
          rfl
  · cases h
    unfold recvdata
    split
    · rw [close_checkpos, eventdel_checkpos]
    · dsimp only
      split
      · rw [eventadd_checkpos, eventset_checkpos, setEv_checkpos, eventdel_checkpos]
        rfl
      · rw [close_checkpos, eventdel_checkpos]
        rfl
  · cases h
    unfold senddata
    split
    · rw [eventadd_checkpos, eventset_checkpos, eventdel_checkpos]
    · rw [eventdel_checkpos, close_checkpos]
  · cases h

theorem test_checkpos {bit : Nat} {io : Io} {e : Reg Nat} {pc : LoopPc} (h : test MAX_EVENTS bit io e pc s = some s') :
    s'.checkpos = s.checkpos := by
  rcases test_cases h with ⟨-, rfl⟩ | ⟨-, -, -, s1, hs1, rfl⟩
  · rfl
  · show s1.checkpos = s.checkpos
    exact callBack_checkpos hs1

/-- A run of the main loop makes its passes. -/
theorem run_passes {s0 : Loop} {as : List LoopAct} {vs : List Visit} (hrun : Lts.run (loopStep MAX_EVENTS) as s = some s')
    (h : Passes MAX_EVENTS s0 vs s) : Passes MAX_EVENTS s0 (vs ++ runVisits MAX_EVENTS as s) s' := by
  induction as generalizing s vs with
  | nil =>
    cases hrun
    rwa [runVisits, List.append_nil]
  | cons a as ih =>
    obtain ⟨s1, hs1, hrun⟩ := Option.bind_eq_some_iff.mp hrun
    rw [runVisits, hs1, Option.map_some, Option.getD_some, ← List.append_assoc]
    refine ih hrun ?_
    cases loopStep_cases hs1 with
    | sweep now s2 hs2 he =>
      subst he
      have hpass := Passes.pass now 100 h
      rw [hs2] at hpass
      rw [stepVisits]
      exact .rest hpass rfl
    | exit he | batch b _ he =>
      subst he
      rw [stepVisits, List.append_nil]
      exact .rest h rfl
    | readable io e rest _ htest | writable io e rest _ htest =>
      rw [stepVisits, List.append_nil]
      exact .rest h (test_checkpos htest)

end

/-! ## The theorem -/

/-- For every table size: whatever the batches are and whatever happens between the passes,
the sweep is fair and exact; and every run of the main loop is such passes. -/
theorem sweep_fair {MAX_EVENTS : Nat} (hpos : 1 ≤ MAX_EVENTS) :
    (∀ (s s' : Loop) (vs : List Visit), s.checkpos = 0 → Passes MAX_EVENTS s vs s' → Fair MAX_EVENTS vs) ∧
    ∀ (lfd : Nat) (time : Int) (as : List LoopAct) (s' : Loop),
      Lts.run (loopStep MAX_EVENTS) as (initlistensocket MAX_EVENTS lfd time) = some s' →
      Fair MAX_EVENTS (runVisits MAX_EVENTS as (initlistensocket MAX_EVENTS lfd time)) := by
  refine ⟨fun s s' vs h0 h => h.fair hpos h0, fun lfd time as s' hrun => ?_⟩
  have hzero : (initlistensocket MAX_EVENTS lfd time).checkpos = 0 := by
    unfold initlistensocket
    rw [eventadd_checkpos]
    rfl
  have hpasses := run_passes hrun (.start (s := initlistensocket MAX_EVENTS lfd time))
  rw [List.nil_append] at hpasses
  exact hpasses.fair hpos hzero

/-- A table of 64 slots and three passes, with a client on slot 0. -/
def idleRun : List LoopAct :=
  [.sweep 0, .wait (some [⟨3, 64, EPOLLIN⟩]), .test { accept := some 4, time := 1 }, .test {}, .sweep 40,
    .wait (some []), .sweep 61, .wait (some [])]

theorem sweep_fair_idle : Fair 64 (runVisits 64 idleRun (initlistensocket 64 3 0)) ∧
    (runVisits 64 idleRun (initlistensocket 64 3 0)).length = 300 := by
  have hsome : (Lts.run (loopStep 64) idleRun (initlistensocket 64 3 0)).isSome = true := by decide +kernel
  obtain ⟨s, hrun⟩ := Option.isSome_iff_exists.mp hsome
  exact ⟨(sweep_fair (by decide)).2 3 0 idleRun s hrun, by decide +kernel⟩

end CSocket.EpollLoop
