import CSocket.PoolSocket.Clients
/-!
# What destroying the pool closes

`sckCltPool_destroy` closes whatever number is in a slot, in use or not, and takes
0 for an empty slot. `sckCltPool_getConnet` does not clear the slot it takes from,
so a number that a client holds, or that was closed since, is closed with the rest.
`destroys_pooled_iff` says when it is not.
-/
namespace CSocket

/-- The descriptors that these operations close, in order. -/
def closes (ops : List PoolOp) : List Int :=
  ops.filterMap fun op => match op with
    | .close fd => some fd
    | _ => none

/-- What `sckCltPool_destroy` does to the pool. -/
def PoolSys.destroyOps (s : PoolSys) : List PoolOp := (sckCltPoolDestroy true s.pool).2.drop s.pool.ops.length

/-- Each pooled descriptor is closed once, and nothing else is: no number twice, none
that a client holds, and none that was closed already. -/
structure DestroysPooled (s : PoolSys) : Prop where
  pooled : (closes s.destroyOps).Perm s.pool.pooled
  once : (closes s.destroyOps).Nodup
  notHeld : ∀ fd ∈ closes s.destroyOps, fd ∉ s.held.map Prod.snd
  isOpen : ∀ fd ∈ closes s.destroyOps, fd ∈ opened s.pool.ops

/-! ## The loop -/

theorem closes_append (a b : List PoolOp) : closes (a ++ b) = closes a ++ closes b := List.filterMap_append

/-- The loop closes the numbers it finds, but for 0. -/
theorem destroyClose_ops (n : Nat) : ∀ (i : Nat) (p : Pool), i + n ≤ p.hdl.fdArray.cells.length →
    (∀ x ∈ p.hdl.fdArray.cells, 0 ≤ x) →
    destroyClose n i p = p.acts ((((p.hdl.fdArray.cells.drop i).take n).filter (· ≠ 0)).map PoolOp.close) := by
  induction n with
  | zero =>
    intro i p _ _
    simp [destroyClose, Pool.acts]
  | succ n ih =>
    intro i p hle hnonneg
    have hlt : i < p.hdl.fdArray.cells.length := by omega
    have hcell : p.fdAt i = p.hdl.fdArray.cells[i] := by
      rw [Pool.fdAt, Int.toNat_natCast, List.getD_eq_getElem?_getD, List.getElem?_eq_getElem hlt]
      rfl
    have hpos : 0 ≤ p.fdAt i := hcell ▸ hnonneg _ (List.getElem_mem hlt)
    have hdrop : (p.hdl.fdArray.cells.drop i).take (n + 1) =
        p.fdAt i :: (p.hdl.fdArray.cells.drop (i + 1)).take n := by
      rw [List.drop_eq_getElem_cons hlt, List.take_succ_cons, hcell]
    rw [destroyClose, hdrop]
    -- the loop passes over a slot with 0
    by_cases hz : p.fdAt i = 0
    · rw [if_neg (by simpa using hz), ih (i + 1) p (by omega) hnonneg, List.filter_cons_of_neg (by simpa using hz)]
    · rw [if_pos hz]
      have hclose : (sckClientCloseconn (p.fdAt i) p).2 = p.act (.close (p.fdAt i)) := by
        rw [sckClientCloseconn, if_pos hpos]
      have hle' : i + 1 + n ≤ (p.act (.close (p.fdAt i))).hdl.fdArray.cells.length := by
        show i + 1 + n ≤ p.hdl.fdArray.cells.length
        omega
      rw [hclose, ih (i + 1) _ hle' hnonneg, List.filter_cons_of_pos (by simpa using hz)]
      simp [Pool.acts, Pool.act]

theorem closes_map_close (l : List Int) : closes (l.map PoolOp.close) = l := by
  rw [closes, List.filterMap_map]
  exact List.filterMap_some

theorem destroyEnd_ops (p : Pool) : ∃ frees, closes frees = [] ∧ (destroyEnd p).2 = p.ops ++ frees := by
  refine ⟨(if p.hdl.fdArray.addr ≠ 0 then [PoolOp.free p.hdl.fdArray.addr] else []) ++
    (if p.hdl.statusArray.addr ≠ 0 then [PoolOp.free p.hdl.statusArray.addr] else []) ++
    [PoolOp.unlock true, PoolOp.freeHandle], ?_, ?_⟩
  · split <;> split <;> rfl
  · by_cases hfd : p.hdl.fdArray.addr = 0 <;> by_cases hst : p.hdl.statusArray.addr = 0 <;>
      simp [destroyEnd, Pool.act, hfd, hst]

/-- On a pool whose slots all hold descriptor numbers. -/
theorem closes_destroyOps {s : PoolSys} (hlen : s.pool.hdl.fdArray.cells.length = s.pool.hdl.bounds.toNat)
    (hnonneg : ∀ x ∈ s.pool.hdl.fdArray.cells, 0 ≤ x) :
    closes s.destroyOps = s.pool.hdl.fdArray.cells.filter (· ≠ 0) := by
  let p0 : Pool := { (s.pool.act (.lock true)) with hdl := { s.pool.hdl with terminated := 1 } }
  have hloop := destroyClose_ops s.pool.hdl.bounds.toNat 0 p0 (by rw [Nat.zero_add, ← hlen]) hnonneg
  obtain ⟨frees, hnone, hend⟩ := destroyEnd_ops (destroyClose s.pool.hdl.bounds.toNat 0 p0)
  have htake : (p0.hdl.fdArray.cells.drop 0).take s.pool.hdl.bounds.toNat = s.pool.hdl.fdArray.cells := by
    rw [List.drop_zero, ← hlen]
    exact List.take_length
  have hops : s.destroyOps = [.lock true] ++ (s.pool.hdl.fdArray.cells.filter (· ≠ 0)).map .close ++ frees := by
    have hdestroy : (sckCltPoolDestroy true s.pool).2 = (destroyClose s.pool.hdl.bounds.toNat 0 p0).ops ++ frees := hend
    rw [PoolSys.destroyOps, hdestroy, hloop, htake]
    show ((s.pool.ops ++ [PoolOp.lock true]) ++ _ ++ frees).drop s.pool.ops.length = _
    rw [List.append_assoc, List.append_assoc, List.drop_left, List.append_assoc]
  rw [hops, closes_append, closes_append, closes_map_close, hnone, List.append_nil]
  rfl

/-! ## What is in the slots -/

/-- Every slot holds the number of a descriptor, open or not. -/
def PoolSys.Stored (s : PoolSys) : Prop := ∀ x ∈ s.pool.hdl.fdArray.cells, 0 ≤ x

theorem mem_set_nonneg {l : List Int} {fd : Int} (h : ∀ x ∈ l, 0 ≤ x) (hfd : 0 ≤ fd) (i : Nat) :
    ∀ x ∈ l.set i fd, 0 ≤ x := by
  intro x hx
  rcases List.mem_or_eq_of_mem_set hx with hx | rfl
  · exact h x hx
  · exact hfd

theorem stored_step {s s' : PoolSys} {a : ClientAct} (hinv : PoolInv s) (h : s.Stored) (hs : s.step a = some s') :
    s'.Stored := by
  cases a with
  | get client o =>
    have hr := get_end hinv.up hinv.owned.nonneg hinv.statusAt o
    simp only [PoolSys.step] at hs
    split at hs
    · cases hs
      unfold PoolSys.Stored
      generalize sckCltPoolGetConnet true true o s.pool = r at hr ⊢
      cases hr <;> exact h
    · cases hs
  | put client fd validFlag o =>
    simp only [PoolSys.step] at hs
    split at hs
    case isTrue hc =>
      cases hs
      obtain ⟨hnn, hnew, hlt⟩ := hinv.held hc.2.2
      have hr := put_end hinv.alive hnn hnew hlt validFlag hc.1
      unfold PoolSys.Stored
      generalize sckCltPoolPutConnet true fd validFlag o s.pool = r at hr ⊢
      cases hr with
      | back => exact mem_set_nonneg h hnn _
      | replaced n => exact mem_set_nonneg h (Int.natCast_nonneg n) _
      | lost => exact h
    case isFalse => cases hs

/-- `sckCltPool_init` succeeds only with all connections. -/
theorem sckCltPoolInit_full {mem : InitMem} {param : SCKClitPoolParam} {outs : Nat → ConnectOutcome}
    {hdl : SockePoolHandle} {ops : List PoolOp} (h : sckCltPoolInit mem param outs = (0, some hdl, ops)) :
    hdl.bounds ≤ hdl.valid := by
  obtain ⟨p0, p1, -, -, -, hfull, rfl, -⟩ := sckCltPoolInit_zero h
  exact hfull

theorem PoolInv.pooled_all {s : PoolSys} (h : PoolInv s) (hfull : s.pool.hdl.bounds ≤ s.pool.hdl.valid) :
    s.pool.pooled = s.pool.hdl.fdArray.cells := by
  have hlen := h.owned.fdLen
  have hle := h.owned.le
  exact List.take_of_length_le (by omega)

theorem PoolSys.Reachable.stored {s : PoolSys} (h : s.Reachable) : PoolInv s ∧ s.Stored := by
  obtain ⟨s0, ⟨mem, param, outs, hinit, -, ht, ho, hf, hheld⟩, hreach⟩ := h
  have h0 : PoolInv s0 := by
    have := sckCltPoolInit_inv hinit ho hf ht
    rwa [← hheld] at this
  apply hreach.invariant (fun s a s' hs hstep => ⟨hs.1.step hstep, stored_step hs.1 hs.2 hstep⟩)
  refine ⟨h0, fun x hx => ?_⟩
  rw [← h0.pooled_all (sckCltPoolInit_full hinit)] at hx
  exact (h0.owned.isOpen x (List.mem_append_left _ hx)).1

/-! ## When destroying is exact -/

theorem destroysPooled_of_closes {s : PoolSys} (h : PoolInv s) (hcloses : (closes s.destroyOps).Perm s.pool.pooled) :
    DestroysPooled s where
  pooled := hcloses
  once := hcloses.nodup_iff.mpr (List.nodup_append.mp h.owned.nodup).1
  notHeld fd hfd hheld := (List.nodup_append.mp h.owned.nodup).2.2 fd (hcloses.mem_iff.mp hfd) fd hheld rfl
  isOpen fd hfd := (h.owned.isOpen fd (List.mem_append_left _ (hcloses.mem_iff.mp hfd))).2

/-- What the loop finds decides: it closes the pooled descriptors just if it passes over
none of them, and finds 0 in every other slot. -/
theorem PoolInv.destroysPooled_iff {s : PoolSys} (h : PoolInv s) (hstored : s.Stored) :
    DestroysPooled s ↔ (∀ fd ∈ s.pool.pooled, fd ≠ 0) ∧
      ∀ fd ∈ s.pool.hdl.fdArray.cells.drop s.pool.hdl.valid.toNat, fd = 0 := by
  have hcloses := closes_destroyOps h.owned.fdLen hstored
  have hsplit : s.pool.hdl.fdArray.cells = s.pool.pooled ++ s.pool.hdl.fdArray.cells.drop s.pool.hdl.valid.toNat :=
    (List.take_append_drop _ _).symm
  constructor
  · intro hd
    have hperm := hd.pooled
    have hnonzero : ∀ fd ∈ s.pool.pooled, fd ≠ 0 := by
      intro fd hfd
      have hmem := hperm.mem_iff.mpr hfd
      rw [hcloses] at hmem
      exact of_decide_eq_true (List.mem_filter.mp hmem).2
    refine ⟨hnonzero, ?_⟩
    have hpooled : s.pool.pooled.filter (· ≠ 0) = s.pool.pooled :=
      List.filter_eq_self.mpr fun fd hfd => decide_eq_true (hnonzero fd hfd)
    -- the pooled ones are closed already, so the rest adds nothing
    have hlength := hperm.length_eq
    rw [hcloses, hsplit, List.filter_append, hpooled, List.length_append] at hlength
    have hnil := List.length_eq_zero_iff.mp (Nat.add_left_cancel (hlength.trans (Nat.add_zero _).symm))
    intro fd hfd
    have := List.filter_eq_nil_iff.mp hnil fd hfd
    simpa using this
  · rintro ⟨hnonzero, htail⟩
    apply destroysPooled_of_closes h
    rw [hcloses, hsplit, List.filter_append, List.filter_eq_self.mpr fun fd hfd => decide_eq_true (hnonzero fd hfd),
      List.filter_eq_nil_iff.mpr fun fd hfd => by simpa using htail fd hfd, List.append_nil]

/-- A reachable pool is destroyed as it should be just if no pooled descriptor is 0 and
0 is in every slot that is not in use; where 0 is in no slot, just if nothing is
checked out and no reconnect has failed. -/
theorem destroys_pooled_iff {s : PoolSys} (h : s.Reachable) :
    (DestroysPooled s ↔ (∀ fd ∈ s.pool.pooled, fd ≠ 0) ∧
      ∀ fd ∈ s.pool.hdl.fdArray.cells.drop s.pool.hdl.valid.toNat, fd = 0) ∧
    ((∀ fd ∈ s.pool.hdl.fdArray.cells, fd ≠ 0) → (DestroysPooled s ↔ s.held = [] ∧ s.pool.failed = 0)) := by
  obtain ⟨hinv, hstored⟩ := h.stored
  have hexact := hinv.destroysPooled_iff hstored
  refine ⟨hexact, fun hzero => hexact.trans ?_⟩
  have hacc := hinv.account
  have hnonneg := hinv.owned.nonneg
  have hle := hinv.owned.le
  have hlen := hinv.owned.fdLen
  constructor
  · rintro ⟨-, htail⟩
    have hnil : s.pool.hdl.fdArray.cells.drop s.pool.hdl.valid.toNat = [] := by
      refine List.eq_nil_iff_forall_not_mem.mpr fun fd hfd => ?_
      exact hzero fd (List.mem_of_mem_drop hfd) (htail fd hfd)
    have hfull : s.pool.hdl.fdArray.cells.length ≤ s.pool.hdl.valid.toNat := List.drop_eq_nil_iff.mp hnil
    exact ⟨List.length_eq_zero_iff.mp (by omega), by omega⟩
  · rintro ⟨hheld, hfailed⟩
    rw [hheld, hfailed] at hacc
    have hfull : s.pool.hdl.fdArray.cells.length ≤ s.pool.hdl.valid.toNat := by
      simp at hacc
      omega
    refine ⟨fun fd hfd => hzero fd (List.mem_of_mem_take hfd), fun fd hfd => ?_⟩
    rw [List.drop_eq_nil_iff.mpr hfull] at hfd
    cases hfd

/-- Nobody has taken the connection. -/
theorem destroys_pooled_iff_single : DestroysPooled PoolSys.single :=
  ((destroys_pooled_iff ⟨_, PoolSys.single_start, .refl _⟩).2 (by decide)).mpr ⟨rfl, rfl⟩

/-- Client 7 has taken it, and it is closed nevertheless. -/
theorem destroy_closes_held : ∃ s : PoolSys, s.Reachable ∧ s.held = [(7, 3)] ∧ s.pool.pooled = [] ∧
    closes s.destroyOps = [3] ∧ ¬ DestroysPooled s := by
  obtain ⟨s, hr, hs⟩ := Lts.Reach.of_run PoolSys.step PoolSys.single
    (fun s => s.held = [(7, 3)] ∧ s.pool.pooled = [] ∧ closes s.destroyOps = [3]) [.get 7 (.noSocket 24)]
    (by decide +kernel)
  obtain ⟨hheld, hpooled, hcloses⟩ := of_decide_eq_true hs
  refine ⟨s, ⟨_, PoolSys.single_start, hr⟩, hheld, hpooled, hcloses, fun hd => ?_⟩
  apply hd.notHeld 3
  · rw [hcloses]
    exact List.mem_singleton.mpr rfl
  · rw [hheld]
    exact List.mem_singleton.mpr rfl

end CSocket
