import CSocket.PoolSocket.Threads
/-!
# What waiting in the pool can change

A get sleeps and tests again with `foo_mutex` in its hands, so nobody can put
anything meanwhile. `Asserted` says so at the positions of the code, and that
`statusArray` never tells a get to reconnect. `Seen` is what a get knows of the
pool that it locked.
-/
namespace CSocket.PoolSocket
open Pthread

/-! ## The pool -/

/-- Whatever calls are under way. -/
structure Sound (d : Data) : Prop where
  alive : d.pool.hdl.terminated = 0
  fdLen : d.pool.hdl.fdArray.cells.length = d.pool.hdl.bounds.toNat
  statusLen : d.pool.hdl.statusArray.cells.length = d.pool.hdl.bounds.toNat
  status : ∀ x ∈ d.pool.hdl.statusArray.cells, x = 1
  nonneg : 0 ≤ d.pool.hdl.valid
  le : d.pool.hdl.valid ≤ d.pool.hdl.bounds
  pooled : ∀ fd ∈ d.pool.pooled, 0 ≤ fd
  held : ∀ fd ∈ d.held, 0 ≤ fd

/-- The record and the history are looked at by nobody. -/
theorem Sound.congr {d d' : Data} (h : Sound d) (hhdl : d'.pool.hdl = d.pool.hdl) (hheld : ∀ fd ∈ d'.held, 0 ≤ fd) :
    Sound d' where
  alive := hhdl ▸ h.alive
  fdLen := hhdl ▸ h.fdLen
  statusLen := hhdl ▸ h.statusLen
  status := hhdl ▸ h.status
  nonneg := hhdl ▸ h.nonneg
  le := hhdl ▸ h.le
  pooled := by
    rw [Pool.pooled, hhdl]
    exact h.pooled
  held := hheld

theorem Sound.statusAt {d : Data} (h : Sound d) {i : Int} (h0 : 0 ≤ i) (hlt : i < d.pool.hdl.bounds) :
    d.pool.statusAt i = 1 := by
  have hlen := h.statusLen
  have hin : i.toNat < d.pool.hdl.statusArray.cells.length := by omega
  rw [Pool.statusAt, List.getD_eq_getElem?_getD, List.getElem?_eq_getElem hin, Option.getD_some]
  exact h.status _ (List.getElem_mem hin)

theorem Sound.pop {d : Data} (h : Sound d) (hv : 0 < d.pool.hdl.valid) :
    Sound { pool := d.pool.setValid (d.pool.hdl.valid - 1),
            held := d.pool.fdAt (d.pool.hdl.valid - 1) :: d.held } := by
  have hlen := h.fdLen
  have hle := h.le
  have hin : (d.pool.hdl.valid - 1).toNat < d.pool.hdl.fdArray.cells.length := by omega
  refine ⟨h.alive, hlen, h.statusLen, h.status, ?_, ?_, fun fd hfd => ?_, fun fd hfd => ?_⟩
  · show 0 ≤ d.pool.hdl.valid - 1
    omega
  · show d.pool.hdl.valid - 1 ≤ d.pool.hdl.bounds
    omega
  · exact h.pooled fd ((List.take_sublist_take_left (by show (d.pool.hdl.valid - 1).toNat ≤ _; omega)).subset hfd)
  · rcases List.mem_cons.mp hfd with rfl | hfd
    · apply h.pooled
      rw [Pool.fdAt, List.getD_eq_getElem?_getD, List.getElem?_eq_getElem hin]
      exact List.mem_take_iff_getElem.mpr ⟨_, by omega, rfl⟩
    · exact h.held fd hfd

theorem Sound.push {d : Data} (h : Sound d) (hlt : d.pool.hdl.valid < d.pool.hdl.bounds) {fd : Int} (hfd : 0 ≤ fd) :
    Sound { d with pool := putPush fd d.pool } := by
  have hnonneg := h.nonneg
  have hpooled := pooled_putPush h.fdLen hnonneg hlt fd
  refine ⟨h.alive, ?_, ?_, mem_set_one h.status _, ?_, hlt, fun x hx => ?_, h.held⟩
  · exact List.length_set.trans h.fdLen
  · exact List.length_set.trans h.statusLen
  · show 0 ≤ d.pool.hdl.valid + 1
    omega
  · rw [hpooled] at hx
    rcases List.mem_append.mp hx with hx | hx
    · exact h.pooled x hx
    · exact List.mem_singleton.mp hx ▸ hfd

/-- `sckClient_connect` changes nothing in the handle, and a descriptor is not negative. -/
theorem connect_frame (port connecttime : Int) (o : ConnectOutcome) (p : Pool) :
    (sckClientConnect port connecttime o p).2.2.hdl = p.hdl ∧
      ∀ fd ∈ (sckClientConnect port connecttime o p).2.1, 0 ≤ fd := by
  unfold sckClientConnect
  split
  · exact ⟨rfl, fun fd hfd => nomatch hfd⟩
  cases o with
  | noSocket => exact ⟨rfl, fun fd hfd => nomatch hfd⟩
  | socket sockfd ret errno =>
    have hfd : ∀ fd ∈ some (sockfd : Int), 0 ≤ fd := fun fd hfd => by
      cases hfd
      exact Int.natCast_nonneg sockfd
    dsimp only
    split
    · split
      · exact ⟨rfl, fun fd hfd => nomatch hfd⟩
      · exact ⟨rfl, hfd⟩
    · exact ⟨rfl, hfd⟩

theorem Sound.repair {d : Data} (h : Sound d) (hlt : d.pool.hdl.valid < d.pool.hdl.bounds) {connfd : Int}
    (hfd : 0 ≤ connfd) (o : ConnectOutcome) : Sound { d with pool := (putRepair connfd o d.pool).2 } := by
  have hclose : sckClientCloseconn connfd d.pool = (0, d.pool.act (.close connfd)) := if_pos hfd
  unfold putRepair
  rw [hclose]
  simp only [ne_eq, not_true, if_false]
  obtain ⟨hhdl, hnonneg⟩ := connect_frame d.pool.hdl.serverport d.pool.hdl.connecttime o (d.pool.act (.close connfd))
  rw [show (d.pool.act (.close connfd)).hdl = d.pool.hdl from rfl]
  generalize sckClientConnect d.pool.hdl.serverport d.pool.hdl.connecttime o (d.pool.act (.close connfd)) = r at hhdl hnonneg ⊢
  obtain ⟨ret, tmpconnectfd, p⟩ := r
  have hp : Sound { d with pool := p } := h.congr hhdl h.held
  dsimp only
  split
  · exact hp.congr rfl h.held
  · refine hp.push (by rw [show p.hdl = d.pool.hdl from hhdl]; exact hlt) ?_
    cases tmpconnectfd with
    | none => exact Int.le_refl 0
    | some fd => exact hnonneg fd rfl

theorem Initialised.sound {p : Pool} (h : Initialised p) : Sound { pool := p } := by
  obtain ⟨mem, param, outs, hinit, ht, ho, hf⟩ := h
  have hinv := sckCltPoolInit_inv hinit ho hf ht
  exact ⟨hinv.alive, hinv.owned.fdLen, hinv.owned.statusLen, hinv.status, hinv.owned.nonneg, hinv.owned.le,
    fun fd hfd => (hinv.owned.isOpen fd (List.mem_append_left _ hfd)).1, fun fd hfd => absurd hfd List.not_mem_nil⟩

/-! ## What holds at a position -/

def GetPc.Asserted (d : Data) : GetPc → Prop
  | .sleep | .retest => d.pool.hdl.valid = 0
  | .status => 0 < d.pool.hdl.valid
  | .reconnect => False
  | .finish ret => ret = 0 → 0 < d.pool.hdl.valid
  | _ => True

def PutPc.Asserted (d : Data) : PutPc → Prop
  | .param connfd _ | .lock connfd _ | .test connfd _ => 0 ≤ connfd
  | .push connfd | .repair connfd => 0 ≤ connfd ∧ d.pool.hdl.valid < d.pool.hdl.bounds
  | .unlockNull => False
  | _ => True

def Pc.Asserted (d : Data) : Pc → Prop
  | .get pc => pc.Asserted d
  | .put pc => pc.Asserted d

/-- `hdl` is the handle that this get locked. -/
def GetPc.Seen (hdl : SockePoolHandle) (d : Data) : GetPc → Prop
  | .lock | .reconnect => False
  | .test | .sleep | .retest | .status => d.pool.hdl = hdl
  | .finish ret => d.pool.hdl = hdl ∧ (ret = 0 ↔ 0 < hdl.valid)
  | .unlock ret connfd | .returned ret connfd =>
    (ret = 0 ↔ 0 < hdl.valid) ∧ (ret = 0 → connfd = some (hdl.fdArray.cells.getD (hdl.valid - 1).toNat 0))

def Pc.Seen (hdl : SockePoolHandle) (d : Data) : Pc → Prop
  | .get pc => pc.Seen hdl d
  | .put _ => False

section
variable (watched : Option (Nat × SockePoolHandle))

/-- The thread that is watched exists. -/
def Global (n : Nat) (d : Data) : Prop := Sound d ∧ ∀ w ∈ watched, w.1 < n

def Local (t : Nat) (pc : Pc) (d : Data) : Prop := pc.Asserted d ∧ ∀ w ∈ watched, t = w.1 → pc.Seen w.2 d

/-! ## The proof outline -/

variable {watched} {t : Nat} {d : Data}

theorem get_data {pc : GetPc} {f : Nat → ConnectOutcome → Data → Data × Pc} (hc : getCode pc = .data f)
    (hd : Sound d) (h : pc.Asserted d) (x : ConnectOutcome) :
    Sound (f t x d).1 ∧ (f t x d).2.Asserted (f t x d).1 ∧
      ∀ hdl, pc.Seen hdl d → (f t x d).2.Seen hdl (f t x d).1 := by
  cases pc with
  | test =>
    cases hc
    have htest : getTest d.pool = .ok (d.pool.hdl.valid = 0) := if_neg (by rw [hd.alive]; decide)
    dsimp only
    rw [htest]
    by_cases hv : d.pool.hdl.valid = 0
    · rw [decide_eq_true hv]
      exact ⟨hd, hv, fun _ => id⟩
    · rw [decide_eq_false hv]
      have hpos := hd.nonneg
      exact ⟨hd, show 0 < d.pool.hdl.valid by omega, fun _ => id⟩
  | sleep =>
    cases hc
    exact ⟨hd.congr rfl hd.held, h, fun _ => id⟩
  | retest =>
    cases hc
    have hv : d.pool.hdl.valid = 0 := h
    dsimp only
    rw [getRetest, if_pos hv]
    refine ⟨hd.congr rfl hd.held, fun hret => absurd hret (by decide), fun hdl hseen => ⟨hseen, ?_⟩⟩
    have hseen : d.pool.hdl = hdl := hseen
    exact iff_of_false (by decide) (by rw [← hseen]; omega)
  | status =>
    cases hc
    have hv : 0 < d.pool.hdl.valid := h
    have hle := hd.le
    -- no status is 0, so nothing is repaired
    have hgood : ¬ decide (d.pool.statusAt (d.pool.hdl.valid - 1) = 0) = true := by
      rw [hd.statusAt (by omega) (by omega)]
      decide
    dsimp only
    rw [if_neg hgood]
    refine ⟨hd, fun _ => hv, fun hdl hseen => ⟨hseen, ?_⟩⟩
    have hseen : d.pool.hdl = hdl := hseen
    exact iff_of_true rfl (hseen ▸ hv)
  | reconnect => exact h.elim
  | finish ret =>
    cases hc
    dsimp only
    split
    case isTrue hret =>
      refine ⟨hd.pop (h hret), trivial, ?_⟩
      rintro hdl ⟨hseen, hiff⟩
      exact ⟨hiff, fun _ => by rw [← hseen]; rfl⟩
    case isFalse hret => exact ⟨hd, trivial, fun hdl hseen => ⟨hseen.2, fun h0 => absurd h0 hret⟩⟩
  | _ => cases hc

theorem put_data {pc : PutPc} {f : Nat → ConnectOutcome → Data → Data × Pc} (hc : putCode pc = .data f)
    (hd : Sound d) (h : pc.Asserted d) (x : ConnectOutcome) :
    Sound (f t x d).1 ∧ (f t x d).2.Asserted (f t x d).1 := by
  cases pc with
  | call connfd validFlag =>
    cases hc
    dsimp only
    split
    case isTrue hheld =>
      exact ⟨hd.congr rfl fun fd hfd => hd.held fd (List.mem_of_mem_erase hfd), hd.held connfd hheld⟩
    case isFalse => exact ⟨hd, trivial⟩
  | param connfd validFlag =>
    cases hc
    dsimp only
    rw [if_neg (Int.not_lt.mpr h)]
    exact ⟨hd, h⟩
  | test connfd validFlag =>
    cases hc
    dsimp only
    rw [if_neg (by rw [hd.alive]; decide)]
    split
    · exact ⟨hd.congr rfl hd.held, trivial⟩
    split
    · exact ⟨hd.congr rfl hd.held, trivial⟩
    rename_i hroom
    have hroom := Int.not_le.mp hroom
    split
    · exact ⟨hd, h, hroom⟩
    · exact ⟨hd, h, hroom⟩
  | push connfd =>
    cases hc
    exact ⟨hd.push h.2 h.1, trivial⟩
  | repair connfd =>
    cases hc
    exact ⟨hd.repair h.2 h.1 x, trivial⟩
  | _ => cases hc

/-- Without the mutex, the handle is not touched. -/
theorem data_frame {pc : Pc} {f : Nat → ConnectOutcome → Data → Data × Pc} (hc : code pc = .data f)
    (hfree : holdsIn Pc.held pc .fooMutex = false) (x : ConnectOutcome) : (f t x d).1.pool.hdl = d.pool.hdl := by
  cases pc with
  | get pc => cases pc <;> cases hc <;> cases hfree
  | put pc =>
    cases pc with
    | call | param =>
      cases hc
      dsimp only
      split <;> rfl
    | _ => cases hc <;> cases hfree

/-- Positions are about the handle and nothing else. -/
theorem Local.congr {watched : Option (Nat × SockePoolHandle)} {pc : Pc} {d' : Data} (h : Local watched t pc d)
    (heq : d'.pool.hdl = d.pool.hdl) : Local watched t pc d' := by
  refine ⟨?_, fun w hw ht => ?_⟩
  · cases pc with
    | get pc => cases pc <;> first | exact h.1 | simpa [Pc.Asserted, GetPc.Asserted, heq] using h.1
    | put pc => cases pc <;> first | exact h.1 | simpa [Pc.Asserted, PutPc.Asserted, heq] using h.1
  · have hseen := h.2 w hw ht
    cases pc with
    | get pc => cases pc <;> first | exact hseen | simpa [Pc.Seen, GetPc.Seen, heq] using hseen
    | put pc => exact hseen

/-- Where the mutex is not held, a position is not about the handle either. -/
theorem Local.unheld {watched : Option (Nat × SockePoolHandle)} {pc : Pc} (h : Local watched t pc d)
    (hfree : holdsIn Pc.held pc .fooMutex = false) (d' : Data) : Local watched t pc d' := by
  refine ⟨?_, fun w hw ht => ?_⟩
  · cases pc with
    | get pc => cases pc <;> first | exact h.1 | cases hfree
    | put pc => cases pc <;> first | exact h.1 | cases hfree
  · have hseen := h.2 w hw ht
    cases pc with
    | get pc => cases pc <;> first | exact hseen | cases hfree
    | put pc => exact hseen

theorem not_create {pc child k : Pc} {f : Nat → Data → Data} : code pc ≠ .create f child k := by
  intro h
  cases pc with
  | get pc => cases pc <;> cases h
  | put pc => cases pc <;> cases h

/-- Who goes on without a change of data has locked or unlocked. -/
theorem goes_local {watched : Option (Nat × SockePoolHandle)} {pc k : Pc} (hg : (code pc).Goes k)
    (h : Local watched t pc d) : Local watched t k d := by
  refine ⟨?_, fun w hw ht => ?_⟩
  · cases pc with
    | get pc => cases pc <;> first | exact hg.elim | (cases hg; trivial)
    | put pc => cases pc <;> first | exact hg.elim | (cases hg; first | trivial | exact h.1)
  · have hseen := h.2 w hw ht
    cases pc with
    | get pc => cases pc <;> first | exact hg.elim | (cases hg; exact hseen) | exact hseen.elim
    | put pc => exact hseen.elim

theorem outline (watched : Option (Nat × SockePoolHandle)) :
    Outline code start (holdsIn Pc.held) (Global watched) (Local watched) where
  discipline := discipline
  move := goes_local
  data {t x pc f n d} hc _ hG h := by
    obtain ⟨hd, hw⟩ := hG
    cases pc with
    | get pc =>
      obtain ⟨hd', hk, hseen⟩ := get_data (t := t) hc hd h.1 x
      exact ⟨⟨hd', hw⟩, hk, fun w hw' ht => hseen w.2 (h.2 w hw' ht)⟩
    | put pc =>
      obtain ⟨hd', hk⟩ := put_data (t := t) hc hd h.1 x
      exact ⟨⟨hd', hw⟩, hk, fun w hw' ht => (h.2 w hw' ht).elim⟩
  create hc := absurd hc not_create
  arrive {pc n d} hpc hG := by
    refine ⟨⟨hG.1, fun w hw => Nat.lt_succ_of_lt (hG.2 w hw)⟩, ?_, fun w hw hn => ?_⟩
    · cases pc with
      | get pc => cases pc <;> trivial
      | put pc => cases pc <;> trivial
    · exact absurd hn (Nat.ne_of_gt (hG.2 w hw))
  stable {t u x pc pc' f n d} hc hne hap _ _ h := by
    cases hheld : holdsIn Pc.held pc .fooMutex with
    | false => exact h.congr (data_frame hc hheld x)
    | true =>
      rcases hap with hdisjoint | ⟨-, c, -⟩
      · exact h.unheld (eq_false_of_ne_true fun hheld' => hdisjoint .fooMutex ⟨hheld, hheld'⟩) _
      · exact c.elim
  stableCreate hc := absurd hc not_create

end

/-! ## Whole runs -/

theorem begin_asserted {p : Pool} (h : Initialised p) :
    Asserted code (holdsIn Pc.held) (Global none) (Local none) (begin p) where
  exclusive := by
    constructor
    · intro m t
      constructor
      · intro h
        cases h
      · rintro ⟨pc, hpc, -⟩
        cases hpc
    · exact fun st hst => absurd hst List.not_mem_nil
  global := ⟨h.sound, fun w hw => nomatch hw⟩
  atPc t pc ht := nomatch ht

theorem Reachable.asserted {s : PoolState} (h : Reachable s) :
    Asserted code (holdsIn Pc.held) (Global none) (Local none) s := by
  obtain ⟨p, hp, hr⟩ := h
  exact (outline none).reach (begin_asserted hp) hr

/-- In the step to `s'` thread `t` takes `foo_mutex` for a get. -/
def Acquires (t : Nat) (s s' : PoolState) : Prop :=
  s.threads[t]? = some (.running (.get .lock)) ∧ (∃ a, poolStep s a = some s') ∧
    s'.threads[t]? = some (.running (.get .test))

/-- From here on the get is watched. -/
theorem Reachable.watch {s : PoolState} (h : Reachable s) {t : Nat} (ht : s.threads[t]? = some (.running (.get .test))) :
    Asserted code (holdsIn Pc.held) (Global (some (t, s.shared.pool.hdl))) (Local (some (t, s.shared.pool.hdl))) s := by
  obtain ⟨hexcl, ⟨hd, -⟩, hpc⟩ := h.asserted
  refine ⟨hexcl, ⟨hd, fun w hw => ?_⟩, fun u pc hu => ⟨(hpc u pc hu).1, fun w hw hut => ?_⟩⟩
  · cases hw
    exact (List.getElem?_eq_some_iff.mp ht).1
  · cases hw
    obtain rfl : u = t := hut
    rw [State.pcs_getElem? ht] at hu
    cases hu
    rfl

/-- Every status is good, so no get reconnects; one that found the pool empty finds it
empty after the sleep; and what a get returns is decided when it has locked the pool. -/
theorem get_waits {s : PoolState} (h : Reachable s) :
    (∀ i, 0 ≤ i → i < s.shared.pool.hdl.bounds → s.shared.pool.statusAt i = 1) ∧
    (∀ t : Nat, s.pcs[t]? ≠ some (.get .reconnect)) ∧
    (∀ t : Nat, s.pcs[t]? = some (.get .sleep) ∨ s.pcs[t]? = some (.get .retest) → s.shared.pool.hdl.valid = 0) ∧
    ∀ t s1 s2 ret connfd, Acquires t s s1 → Lts.Reach poolStep s1 s2 →
      s2.pcs[t]? = some (.get (.returned ret connfd)) →
      (ret = 0 ↔ 0 < s1.shared.pool.hdl.valid) ∧
      (ret = 0 → connfd = some (s1.shared.pool.fdAt (s1.shared.pool.hdl.valid - 1))) := by
  obtain ⟨-, ⟨hd, -⟩, hpc⟩ := h.asserted
  refine ⟨fun i => hd.statusAt, fun t ht => (hpc t _ ht).1, ?_, ?_⟩
  · rintro t (ht | ht)
    · exact (hpc t _ ht).1
    · exact (hpc t _ ht).1
  · rintro t s1 s2 ret connfd ⟨-, ⟨a, hs⟩, ht⟩ hr hret
    obtain ⟨p, hp, hreach⟩ := h
    have h1 : Reachable s1 := ⟨p, hp, hreach.tail hs⟩
    obtain ⟨-, -, hpc2⟩ := (outline _).reach (h1.watch ht) hr
    exact (hpc2 t _ hret).2 _ rfl rfl

theorem Initialised.single : Initialised PoolSys.single.pool := by
  obtain ⟨mem, param, outs, hinit, -, ht, ho, hf, -⟩ := PoolSys.single_start
  exact ⟨mem, param, outs, hinit, ht, ho, hf⟩

/-- Thread `t` takes `n` steps. -/
def steps (t n : Nat) : List PoolAct := List.replicate n (.run t (.noSocket 24) 0)

/-- The one connection is taken, and a second get sleeps. -/
theorem get_waits_empty : ∃ s, Reachable s ∧ s.pcs = [.get (.returned 0 (some 3)), .get .sleep] ∧
    s.shared.pool.hdl.valid = 0 := by
  obtain ⟨s, hr, hs⟩ := Lts.Reach.of_run poolStep (begin PoolSys.single.pool)
    (fun s => decide (s.pcs = [.get (.returned 0 (some 3)), .get .sleep]))
    (.arrive (.get .lock) :: steps 0 5 ++ .arrive (.get .lock) :: steps 1 2) (by decide +kernel)
  have hpcs := of_decide_eq_true hs
  have h : Reachable s := ⟨_, Initialised.single, hr⟩
  exact ⟨s, h, hpcs, (get_waits h).2.2.1 1 (.inl (by rw [hpcs]; rfl))⟩

end CSocket.PoolSocket
