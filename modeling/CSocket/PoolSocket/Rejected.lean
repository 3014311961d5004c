import CSocket.PoolSocket.Memory
/-!
# Operations that the pool rejects

A call that returns a failure should leave the pool as it found it (`Untouched`).
`sckCltPool_putConnet` breaks this where it checks its parameters, as it unlocks a
mutex behind `NULL`, and on a terminated pool, which takes the descriptor in without
a look at `bounds`. `sckCltPool_getConnet` breaks it where it forgets the descriptor
of a connection that it could not repair.
-/
namespace CSocket

/-- What was done between two states of the pool. -/
def Pool.since (p p' : Pool) : List PoolOp := p'.ops.drop p.ops.length

def PoolOp.isMutex : PoolOp → Bool
  | .lock _ | .unlock _ => true
  | _ => false

/-- The array index that is written. -/
def PoolOp.index : PoolOp → Option Int
  | .storeFd i | .storeStatus i => some i
  | _ => none

/-- The pool is as it was, no array was written at `bounds` or behind, and the mutex is
released if it was locked. -/
structure Untouched (p p' : Pool) : Prop where
  valid : p'.hdl.valid = p.hdl.valid
  fdArray : p'.hdl.fdArray = p.hdl.fdArray
  statusArray : p'.hdl.statusArray = p.hdl.statusArray
  within : ∀ op ∈ p.since p', ∀ i ∈ op.index, i < p.hdl.bounds
  mutex : (p.since p').filter PoolOp.isMutex = [] ∨ (p.since p').filter PoolOp.isMutex = [.lock true, .unlock true]

/-- A put that fails before it tries to reconnect, which it logs, leaves the pool alone. -/
def PutRejects (handle : Bool) (connfd validFlag : Int) (o : ConnectOutcome) (p : Pool) : Prop :=
  let r := sckCltPoolPutConnet handle connfd validFlag o p
  r.1 ≠ 0 → .log r.1 reconnectFailedText ∉ p.since r.2 → Untouched p r.2

/-- A get that fails leaves the pool alone. -/
def GetRejects (handle connfd : Bool) (o : ConnectOutcome) (p : Pool) : Prop :=
  let r := sckCltPoolGetConnet handle connfd o p
  r.1 ≠ 0 → Untouched p r.2.2

/-- `sckClient_connect` fails. -/
def ConnectOutcome.fails (port connecttime : Int) (o : ConnectOutcome) : Prop :=
  (port ≤ 0 ∨ port > 65537 ∨ connecttime < 0) ∨ match o with
    | .noSocket errno => errno ≠ 0
    | .socket _ ret _ => ret ≠ 0

/-- The top connection is marked as broken and has a descriptor, and cannot be
replaced. -/
structure RepairFails (handle connfd : Bool) (o : ConnectOutcome) (p : Pool) : Prop where
  params : handle = true ∧ connfd = true
  alive : p.hdl.terminated ≠ 1
  pooled : 0 < p.hdl.valid
  broken : p.statusAt (p.hdl.valid - 1) = 0
  fd : p.fdAt (p.hdl.valid - 1) ≠ 0
  fails : o.fails p.hdl.serverport p.hdl.connecttime

/-! ## What a call records -/

variable {p : Pool}

theorem since_acts (p : Pool) (ops : List PoolOp) : p.since (p.acts ops) = ops := List.drop_left

/-- What only adds to the record, and locks and unlocks at most, leaves the pool alone. -/
theorem untouched_acts (p : Pool) (ops : List PoolOp) (hindex : ∀ op ∈ ops, op.index = none)
    (hmutex : ops.filter PoolOp.isMutex = [] ∨ ops.filter PoolOp.isMutex = [.lock true, .unlock true]) :
    Untouched p (p.acts ops) where
  valid := rfl
  fdArray := rfl
  statusArray := rfl
  within op hop i hi := by
    rw [since_acts] at hop
    rw [hindex op hop] at hi
    cases hi
  mutex := by rwa [since_acts]

/-- What connecting and closing record. -/
def PoolOp.outer (op : PoolOp) : Prop := op.index = none ∧ op.isMutex = false

/-- `sckClient_connect` does not look at the pool, and fails where it says so. -/
theorem connect_result (port connecttime : Int) (o : ConnectOutcome) :
    ∃ ret connfd ops, (∀ p, sckClientConnect port connecttime o p = (ret, connfd, p.acts ops)) ∧
      (∀ op ∈ ops, op.outer) ∧ (ret ≠ 0 ↔ o.fails port connecttime) := by
  by_cases hparam : port ≤ 0 ∨ port > 65537 ∨ connecttime < 0
  · refine ⟨_, _, [_], fun p => if_pos hparam, by simp [PoolOp.outer, PoolOp.index, PoolOp.isMutex], ?_⟩
    exact iff_of_true (by decide) (.inl hparam)
  cases o with
  | noSocket errno =>
    exact ⟨errno, none, [], fun p => (if_neg hparam).trans (by simp [Pool.acts]), by simp, (or_iff_right hparam).symm⟩
  | socket sockfd ret errno =>
    have houter : (PoolOp.socket sockfd).outer := ⟨rfl, rfl⟩
    by_cases hret : ret < 0
    · have hfails : (ConnectOutcome.socket sockfd ret errno).fails port connecttime := .inr (by omega)
      by_cases htime : ret = -1 ∧ errno = ETIMEDOUT
      · refine ⟨sckErrTimeOut, none, [.socket sockfd], fun p => ?_, by simpa using houter, iff_of_true (by decide) hfails⟩
        simp [sckClientConnect, hparam, htime, Pool.acts, Pool.act]
      · refine ⟨ret, some sockfd, [.socket sockfd, .log ret "func connect_timeout() err"], fun p => ?_, ?_,
          iff_of_true (by omega) hfails⟩
        · simp [sckClientConnect, hparam, hret, htime, Pool.acts, Pool.act]
        · simpa using ⟨houter, rfl, rfl⟩
    · refine ⟨ret, some sockfd, [.socket sockfd], fun p => ?_, by simpa using houter, (or_iff_right hparam).symm⟩
      simp [sckClientConnect, hparam, hret, Pool.acts, Pool.act]

/-! ## Putting -/

theorem put_param {handle : Bool} {connfd : Int} (h : handle = false ∨ connfd < 0) (validFlag : Int) (o : ConnectOutcome)
    (p : Pool) : ¬ PutRejects handle connfd validFlag o p := by
  have hr : sckCltPoolPutConnet handle connfd validFlag o p = (sckErrParam, p.acts [.log sckErrParam
      " func sckCltPool_putConnet() err, check (handle == NULL || connfd==NULL)", .unlock false]) :=
    (if_pos h).trans (by simp [Pool.acts, Pool.act])
  intro hput
  have hfail : sckErrParam ≠ 0 := by decide
  unfold PutRejects at hput
  rw [hr] at hput
  have hmutex := (hput hfail (by rw [since_acts]; simp [reconnectFailedText])).mutex
  rw [since_acts] at hmutex
  exact absurd hmutex (by decide)

theorem params_good {connfd : Int} (hfd : 0 ≤ connfd) : ¬ (true = false ∨ connfd < 0) := by
  rintro (h | h)
  · cases h
  · omega

theorem put_terminated {connfd : Int} (hfd : 0 ≤ connfd) (validFlag : Int) (o : ConnectOutcome)
    (ht : p.hdl.terminated = 1) : ¬ PutRejects true connfd validFlag o p := by
  let p1 := (p.act (.lock true)).act (.log sckErrPoolTerminated
    " func sckCltPool_putConnet() err, check (func sckCltPool_putConnet() (terminated == 1))")
  have hr : sckCltPoolPutConnet true connfd validFlag o p = (sckErrPoolTerminated,
      ((p1.storeFd p.hdl.valid connfd).setValid (p.hdl.valid + 1)).act (.unlock true)) := by
    rw [sckCltPoolPutConnet, if_neg (params_good hfd)]
    exact if_pos ht
  intro hput
  have hfail : sckErrPoolTerminated ≠ 0 := by decide
  unfold PutRejects at hput
  rw [hr] at hput
  have hops : p.since (((p1.storeFd p.hdl.valid connfd).setValid (p.hdl.valid + 1)).act (.unlock true)) =
      [.lock true, .log sckErrPoolTerminated
        " func sckCltPool_putConnet() err, check (func sckCltPool_putConnet() (terminated == 1))",
        .storeFd p.hdl.valid, .unlock true] := by
    simp [p1, Pool.since, Pool.act, Pool.storeFd, Pool.setValid]
  have hvalid : p.hdl.valid + 1 = p.hdl.valid := (hput hfail (by rw [hops]; simp [reconnectFailedText])).valid
  omega

/-- The two checks of `sckCltPool_putConnet` only write to the log. -/
theorem untouched_refused (p : Pool) (ret : Int) (text : String) :
    Untouched p (((p.act (.lock true)).act (.log ret text)).act (.unlock true)) := by
  have h := untouched_acts p [.lock true, .log ret text, .unlock true] (by simp [PoolOp.index]) (.inr rfl)
  simpa [Pool.acts, Pool.act] using h

theorem put_alive {connfd : Int} (hfd : 0 ≤ connfd) (validFlag : Int) (o : ConnectOutcome) (ht : p.hdl.terminated ≠ 1) :
    PutRejects true connfd validFlag o p := by
  unfold PutRejects
  dsimp only
  rw [sckCltPoolPutConnet, if_neg (params_good hfd)]
  dsimp only
  rw [if_neg (show ¬ (p.act (.lock true)).hdl.terminated = 1 from ht)]
  split
  · exact fun _ _ => untouched_refused p _ _
  split
  · exact fun _ _ => untouched_refused p _ _
  split
  · exact fun hfail => absurd rfl hfail
  · -- a reconnect that failed is in the log
    obtain ⟨ret, fd, ops, hconnect, -, -⟩ := connect_result p.hdl.serverport p.hdl.connecttime o
    have hclose : sckClientCloseconn connfd (p.act (.lock true)) = (0, (p.act (.lock true)).act (.close connfd)) :=
      if_pos hfd
    unfold putRepair
    rw [hclose]
    simp only [ne_eq, not_true, if_false]
    rw [show ((p.act (.lock true)).act (.close connfd)).hdl = p.hdl from rfl, hconnect]
    dsimp only
    split
    case isTrue =>
      intro _ hlog
      refine absurd ?_ hlog
      simp [Pool.since, Pool.act, Pool.acts]
    case isFalse hret => exact fun hfail => absurd hfail hret

theorem put_rejects_iff (handle : Bool) (connfd validFlag : Int) (o : ConnectOutcome) (p : Pool) :
    PutRejects handle connfd validFlag o p ↔ handle = true ∧ 0 ≤ connfd ∧ p.hdl.terminated ≠ 1 := by
  constructor
  · intro h
    have hparam : ¬ (handle = false ∨ connfd < 0) := fun hparam => put_param hparam validFlag o p h
    obtain ⟨hhandle, hfd⟩ := not_or.mp hparam
    have hhandle := eq_true_of_ne_false hhandle
    subst hhandle
    have hfd := Int.not_lt.mp hfd
    exact ⟨rfl, hfd, fun ht => put_terminated hfd validFlag o ht h⟩
  · rintro ⟨rfl, hfd, ht⟩
    exact put_alive hfd validFlag o ht

/-! ## Getting -/

theorem get_param {handle connfd : Bool} (h : handle = false ∨ connfd = false) (o : ConnectOutcome) (p : Pool) :
    GetRejects handle connfd o p := by
  unfold GetRejects sckCltPoolGetConnet
  rw [if_pos h]
  exact fun _ => untouched_acts p [_] (by simp [PoolOp.index]) (.inl rfl)

theorem get_terminated (o : ConnectOutcome) (ht : p.hdl.terminated = 1) : GetRejects true true o p := by
  have htest : getTest (p.act (.lock true)) = .error sckErrPoolTerminated := if_pos ht
  unfold GetRejects sckCltPoolGetConnet
  rw [if_neg (by simp)]
  dsimp only
  rw [htest]
  exact fun _ => untouched_refused p _ _

theorem get_empty (o : ConnectOutcome) (ht : p.hdl.terminated ≠ 1) (hv : p.hdl.valid = 0) :
    GetRejects true true o p := by
  have htest : getTest (p.act (.lock true)) = .ok (p.hdl.valid = 0) := if_neg ht
  unfold GetRejects sckCltPoolGetConnet
  rw [if_neg (by simp)]
  dsimp only
  rw [htest, decide_eq_true hv]
  dsimp only
  rw [getRetest, if_pos (show ((p.act (.lock true)).act _).hdl.valid = 0 from hv)]
  intro _
  have h := untouched_acts p [.lock true, .usleep p.hdl.sTimeout, .log sckErrPoolGetConnValidIsZero
    "func sckCltPool_getConnet() Sck_Err_Pool_GetConn_ValidIsZero err", .unlock true] (by simp [PoolOp.index]) (.inr rfl)
  simpa [getEnd, Pool.acts, Pool.act, show sckErrPoolGetConnValidIsZero ≠ 0 by decide] using h

/-- A pool with a connection goes to the repair straight away. -/
theorem get_pooled (o : ConnectOutcome) (ht : p.hdl.terminated ≠ 1) (hv : p.hdl.valid ≠ 0) :
    sckCltPoolGetConnet true true o p =
      getEnd (getRepair o (p.act (.lock true))).1 (getRepair o (p.act (.lock true))).2 := by
  have htest : getTest (p.act (.lock true)) = .ok (p.hdl.valid = 0) := if_neg ht
  rw [sckCltPoolGetConnet, if_neg (by simp)]
  dsimp only
  rw [htest, decide_eq_false hv]

/-- A repair begins with closing descriptor 0 where the entry has no other. -/
theorem repair_closes (p : Pool) : ∃ closed : List PoolOp, (∀ op ∈ closed, op.outer) ∧
    (if p.fdAt (p.hdl.valid - 1) = 0 then (sckClientCloseconn (p.fdAt (p.hdl.valid - 1)) p).2 else p) = p.acts closed := by
  split
  case isTrue hzero =>
    refine ⟨[.close 0], by simp [PoolOp.outer, PoolOp.index, PoolOp.isMutex], ?_⟩
    rw [hzero]
    rfl
  case isFalse => exact ⟨[], by simp, by simp [Pool.acts]⟩

/-- What a repair leaves that fails. -/
structure RepairFailed (p p' : Pool) : Prop where
  hdl : p'.hdl = { p.hdl with fdArray.cells := p.hdl.fdArray.cells.set (p.hdl.valid - 1).toNat 0 }
  ops : ∃ ops, p'.ops = p.ops ++ ops ∧
    ∀ op ∈ ops, op.isMutex = false ∧ (op.index = none ∨ op.index = some (p.hdl.valid - 1))

theorem repair_failed {o : ConnectOutcome} (hbroken : p.statusAt (p.hdl.valid - 1) = 0)
    (hfails : o.fails p.hdl.serverport p.hdl.connecttime) :
    (getRepair o p).1 ≠ 0 ∧ RepairFailed p (getRepair o p).2 := by
  obtain ⟨ret, connfd, ops, hconnect, houter, hiff⟩ := connect_result p.hdl.serverport p.hdl.connecttime o
  have hret := hiff.mpr hfails
  obtain ⟨closed, hclosed, hclose⟩ := repair_closes p
  unfold getRepair
  dsimp only
  rw [if_pos hbroken]
  simp only [closeconn_zero, ne_eq, not_true, if_false]
  rw [hclose, show (p.acts closed).hdl = p.hdl from rfl, hconnect]
  simp only [hret, not_false_eq_true, if_true]
  have hall : ∀ op ∈ closed ++ ops, op.isMutex = false ∧ (op.index = none ∨ op.index = some (p.hdl.valid - 1)) := by
    intro op hop
    obtain ⟨hindex, hmutex⟩ := List.forall_mem_append.mpr ⟨hclosed, houter⟩ op hop
    exact ⟨hmutex, .inl hindex⟩
  generalize " func sckClient_connect() err 断链修复 重新连接失败" = text
  cases connfd with
  | none =>
    refine ⟨trivial, rfl, (closed ++ ops) ++ [.log ret text, .storeFd (p.hdl.valid - 1)], ?_, ?_⟩
    · simp [Pool.storeFd, Pool.act, Pool.acts]
    · exact List.forall_mem_append.mpr ⟨hall, by simp [PoolOp.isMutex, PoolOp.index]⟩
  | some fd =>
    refine ⟨trivial, ?_, (closed ++ ops) ++ [.storeFd (p.hdl.valid - 1), .log ret text, .storeFd (p.hdl.valid - 1)], ?_, ?_⟩
    · simp [Pool.storeFd, Pool.act, Pool.acts, List.set_set]
    · simp [Pool.storeFd, Pool.act, Pool.acts]
    · exact List.forall_mem_append.mpr ⟨hall, by simp [PoolOp.isMutex, PoolOp.index]⟩

/-- Storing 0 in a slot is seen unless 0 is in it. -/
theorem set_zero_eq_iff (l : List Int) (i : Nat) : l.set i 0 = l ↔ l.getD i 0 = 0 := by
  rw [List.getD_eq_getElem?_getD]
  constructor
  · intro h
    rw [← h, List.getElem?_set_self']
    cases l[i]? <;> rfl
  · intro h
    cases hi : l[i]? with
    | none => exact List.set_eq_of_length_le (List.getElem?_eq_none_iff.mp hi)
    | some x =>
      rw [hi, Option.getD_some] at h
      obtain ⟨hlt, hx⟩ := List.getElem?_eq_some_iff.mp hi
      rw [← h, ← hx, List.set_getElem_self]

theorem get_repair_failed {o : ConnectOutcome} (ht : p.hdl.terminated ≠ 1) (hv : 0 < p.hdl.valid)
    (hle : p.hdl.valid ≤ p.hdl.bounds) (hbroken : p.statusAt (p.hdl.valid - 1) = 0)
    (hfails : o.fails p.hdl.serverport p.hdl.connecttime) :
    GetRejects true true o p ↔ p.fdAt (p.hdl.valid - 1) = 0 := by
  obtain ⟨hret, hhdl, ops, hops, hquiet⟩ := repair_failed (p := p.act (.lock true)) hbroken hfails
  have hget : GetRejects true true o p ↔ Untouched p ((getRepair o (p.act (.lock true))).2.act (.unlock true)) := by
    unfold GetRejects
    rw [get_pooled o ht (by omega), getEnd, if_neg hret]
    exact ⟨fun h => h hret, fun h _ => h⟩
  rw [hget]
  have hsince : p.since ((getRepair o (p.act (.lock true))).2.act (.unlock true))
      = .lock true :: (ops ++ [.unlock true]) := by
    rw [Pool.since, Pool.act, hops]
    simp [Pool.act]
  have hhdl : ((getRepair o (p.act (.lock true))).2.act (.unlock true)).hdl =
    { p.hdl with fdArray.cells := p.hdl.fdArray.cells.set (p.hdl.valid - 1).toNat 0 } := hhdl
  constructor
  · intro h
    have hcells := congrArg IntArray.cells h.fdArray
    rw [hhdl] at hcells
    exact (set_zero_eq_iff _ _).mp hcells
  · intro hzero
    refine ⟨?_, ?_, ?_, ?_, ?_⟩
    · rw [hhdl]
    · rw [hhdl]
      exact congrArg (IntArray.mk _) ((set_zero_eq_iff _ _).mpr hzero)
    · rw [hhdl]
    · rw [hsince]
      intro op hop i hi
      rcases List.mem_cons.mp hop with rfl | hop
      · cases hi
      rcases List.mem_append.mp hop with hop | hop
      · rcases (hquiet op hop).2 with hnone | hsome
        · rw [hnone] at hi
          cases hi
        · rw [hsome] at hi
          cases hi
          show p.hdl.valid - 1 < p.hdl.bounds
          omega
      · obtain rfl := List.mem_singleton.mp hop
        cases hi
    · rw [hsince]
      have hnone : ops.filter PoolOp.isMutex = [] :=
        List.filter_eq_nil_iff.mpr fun op hop => by simp [(hquiet op hop).1]
      rw [List.filter_cons_of_pos rfl, List.filter_append, hnone]
      exact .inr rfl

/-- Without a broken connection there is nothing to do. -/
theorem repair_done {o : ConnectOutcome}
    (h : ¬ (p.statusAt (p.hdl.valid - 1) = 0 ∧ o.fails p.hdl.serverport p.hdl.connecttime)) : (getRepair o p).1 = 0 := by
  by_cases hbroken : p.statusAt (p.hdl.valid - 1) = 0
  · obtain ⟨ret, connfd, ops, hconnect, -, hiff⟩ := connect_result p.hdl.serverport p.hdl.connecttime o
    have hret : ret = 0 := not_not.mp fun hret => h ⟨hbroken, hiff.mp hret⟩
    unfold getRepair
    dsimp only
    rw [if_pos hbroken]
    simp only [closeconn_zero, ne_eq, not_true, if_false]
    obtain ⟨closed, -, hclose⟩ := repair_closes p
    rw [hclose, show (p.acts closed).hdl = p.hdl from rfl, hconnect]
    simp only [hret, not_true, if_false]
  · rw [getRepair_good hbroken]

theorem get_rejects_iff (handle connfd : Bool) (o : ConnectOutcome) (h0 : 0 ≤ p.hdl.valid)
    (hle : p.hdl.valid ≤ p.hdl.bounds) : GetRejects handle connfd o p ↔ ¬ RepairFails handle connfd o p := by
  by_cases hparam : handle = false ∨ connfd = false
  · refine iff_of_true (get_param hparam o p) fun h => ?_
    rcases hparam with rfl | rfl
    · cases h.params.1
    · cases h.params.2
  obtain ⟨hhandle, hconnfd⟩ := not_or.mp hparam
  obtain rfl := eq_true_of_ne_false hhandle
  obtain rfl := eq_true_of_ne_false hconnfd
  by_cases ht : p.hdl.terminated = 1
  · exact iff_of_true (get_terminated o ht) fun h => h.alive ht
  by_cases hv : p.hdl.valid = 0
  · exact iff_of_true (get_empty o ht hv) fun h => by have := h.pooled; omega
  have hpos : 0 < p.hdl.valid := by omega
  -- with a connection, only a repair can fail
  by_cases hrepair : p.statusAt (p.hdl.valid - 1) = 0 ∧ o.fails p.hdl.serverport p.hdl.connecttime
  · obtain ⟨hbroken, hfails⟩ := hrepair
    rw [get_repair_failed ht hpos hle hbroken hfails]
    exact ⟨fun hzero h => h.fd hzero, fun h => not_not.mp fun hfd => h ⟨⟨rfl, rfl⟩, ht, hpos, hbroken, hfd, hfails⟩⟩
  · refine iff_of_true ?_ fun h => hrepair ⟨h.broken, h.fails⟩
    unfold GetRejects
    rw [get_pooled o ht hv, getEnd, if_pos (repair_done (p := p.act (.lock true)) hrepair)]
    exact fun hfail => absurd (repair_done (p := p.act (.lock true)) hrepair) hfail

/-! ## Both operations -/

/-- For every pool, terminated or not: a put leaves the pool alone where it fails if and
only if its parameters are good and the pool is not terminated, and a get, if and only
if it does not fail to repair a connection. -/
theorem rejected_iff (h0 : 0 ≤ p.hdl.valid) (hle : p.hdl.valid ≤ p.hdl.bounds) (handle : Bool) (o : ConnectOutcome) :
    (∀ connfd validFlag, PutRejects handle connfd validFlag o p ↔
      handle = true ∧ 0 ≤ connfd ∧ p.hdl.terminated ≠ 1) ∧
    ∀ connfd, GetRejects handle connfd o p ↔ ¬ RepairFails handle connfd o p :=
  ⟨fun connfd validFlag => put_rejects_iff handle connfd validFlag o p,
    fun connfd => get_rejects_iff handle connfd o h0 hle⟩

/-- A pool with room for one connection, and the connection in it. -/
def fullPool (terminated : Int) : Pool where
  hdl := { fdArray := ⟨1, [5]⟩, statusArray := ⟨2, [1]⟩, valid := 1, bounds := 1, serverport := 80, terminated }

/-- There is no room for a second one. -/
theorem rejected_iff_full : PutRejects true 6 1 (.noSocket 24) (fullPool 0) :=
  ((rejected_iff (by decide) (by decide) true (.noSocket 24)).1 6 1).mpr (by decide)

/-- A put with descriptor -1 unlocks the mutex of no pool. A put to a full pool that is
terminated is refused, and writes behind the array. -/
theorem rejected_put_writes :
    (sckCltPoolPutConnet true (-1) 1 (.noSocket 24) (fullPool 0)).1 = sckErrParam ∧
      PoolOp.unlock false ∈ (sckCltPoolPutConnet true (-1) 1 (.noSocket 24) (fullPool 0)).2.ops ∧
      ¬ PutRejects true (-1) 1 (.noSocket 24) (fullPool 0) ∧
    (sckCltPoolPutConnet true 6 1 (.noSocket 24) (fullPool 1)).1 = sckErrPoolTerminated ∧
      PoolOp.storeFd 1 ∈ (sckCltPoolPutConnet true 6 1 (.noSocket 24) (fullPool 1)).2.ops ∧
      ¬ PutRejects true 6 1 (.noSocket 24) (fullPool 1) :=
  ⟨rfl, by decide, put_param (.inr (by decide)) 1 _ _, rfl, by decide, put_terminated (by decide) 1 _ rfl⟩

end CSocket
