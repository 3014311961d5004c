import CSocket.PoolSocket.Destroy
/-!
# What the pool reads of uninitialised memory

Two runs that differ in the contents of what `malloc` returned, and in nothing
else. `sckCltPool_init` clears the first eight bytes of the handle only: it may
free the pointer it finds in `statusArray`, close what the statuses it did not
write mark, or leave a pool that takes itself for terminated. `independent_iff`
says on which contents two runs agree; nothing else is read, there or later.
-/
namespace CSocket

/-! ## Pools that differ in their history -/

/-- What the calls read is the same; `terminated` is only compared with 1. -/
structure Twin (p q : Pool) : Prop where
  fdArray : p.hdl.fdArray = q.hdl.fdArray
  statusArray : p.hdl.statusArray = q.hdl.statusArray
  valid : p.hdl.valid = q.hdl.valid
  bounds : p.hdl.bounds = q.hdl.bounds
  serverport : p.hdl.serverport = q.hdl.serverport
  connecttime : p.hdl.connecttime = q.hdl.connecttime
  terminated : p.hdl.terminated = 1 ↔ q.hdl.terminated = 1

namespace Twin
variable {p q : Pool}

theorem fdAt (h : Twin p q) (i : Int) : p.fdAt i = q.fdAt i := by rw [Pool.fdAt, Pool.fdAt, h.fdArray]

theorem statusAt (h : Twin p q) (i : Int) : p.statusAt i = q.statusAt i := by
  rw [Pool.statusAt, Pool.statusAt, h.statusArray]

theorem act (h : Twin p q) (op op' : PoolOp) : Twin (p.act op) (q.act op') :=
  ⟨h.fdArray, h.statusArray, h.valid, h.bounds, h.serverport, h.connecttime, h.terminated⟩

theorem acts (h : Twin p q) (ops ops' : List PoolOp) : Twin (p.acts ops) (q.acts ops') :=
  ⟨h.fdArray, h.statusArray, h.valid, h.bounds, h.serverport, h.connecttime, h.terminated⟩

theorem storeFd (h : Twin p q) {i j : Int} (hij : i = j) (x : Int) : Twin (p.storeFd i x) (q.storeFd j x) where
  fdArray := hij ▸ congrArg (fun a : IntArray => { a with cells := a.cells.set i.toNat x }) h.fdArray
  statusArray := h.statusArray
  valid := h.valid
  bounds := h.bounds
  serverport := h.serverport
  connecttime := h.connecttime
  terminated := h.terminated

theorem storeStatus (h : Twin p q) {i j : Int} (hij : i = j) (x : Int) :
    Twin (p.storeStatus i x) (q.storeStatus j x) where
  fdArray := h.fdArray
  statusArray := hij ▸ congrArg (fun a : IntArray => { a with cells := a.cells.set i.toNat x }) h.statusArray
  valid := h.valid
  bounds := h.bounds
  serverport := h.serverport
  connecttime := h.connecttime
  terminated := h.terminated

theorem setValid (h : Twin p q) {n m : Int} (hnm : n = m) : Twin (p.setValid n) (q.setValid m) :=
  ⟨h.fdArray, h.statusArray, hnm, h.bounds, h.serverport, h.connecttime, h.terminated⟩

/-- `hdl->valid++;` -/
theorem bump (h : Twin p q) : Twin (p.setValid (p.hdl.valid + 1)) (q.setValid (q.hdl.valid + 1)) :=
  h.setValid (congrArg (· + 1) h.valid)

theorem push (h : Twin p q) (fd : Int) : Twin (putPush fd p) (putPush fd q) :=
  ((h.storeFd h.valid fd).storeStatus h.valid 1).bump

end Twin

/-- A call gives the same on twins, and leaves twins. -/
def Alike {ρ : Type} (f : Pool → ρ × Pool) : Prop :=
  ∀ p q, Twin p q → (f p).1 = (f q).1 ∧ Twin (f p).2 (f q).2

/-! ## The calls -/

/-- `sckClient_connect` does not look at the pool. -/
theorem connect_uniform (port connecttime : Int) (o : ConnectOutcome) :
    ∃ ret connfd ops, ∀ p, sckClientConnect port connecttime o p = (ret, connfd, p.acts ops) := by
  unfold sckClientConnect
  split
  · exact ⟨_, _, [_], fun p => rfl⟩
  cases o with
  | noSocket errno => exact ⟨errno, none, [], fun p => by simp [Pool.acts]⟩
  | socket sockfd ret errno =>
    dsimp only
    split
    · split
      · exact ⟨_, _, [.socket sockfd], fun p => rfl⟩
      · exact ⟨ret, some sockfd, [.socket sockfd, .log ret "func connect_timeout() err"],
          fun p => by simp [Pool.acts, Pool.act]⟩
    · exact ⟨ret, some sockfd, [.socket sockfd], fun p => rfl⟩

theorem closeconn_alike (fd : Int) : Alike (sckClientCloseconn fd) := by
  intro p q h
  unfold sckClientCloseconn
  split
  · exact ⟨rfl, h.act _ _⟩
  · exact ⟨rfl, h⟩

theorem closeconn_zero (fd : Int) (p : Pool) : (sckClientCloseconn fd p).1 = 0 := by
  unfold sckClientCloseconn
  split <;> rfl

theorem getRepair_alike (o : ConnectOutcome) : Alike (getRepair o) := by
  intro p q h
  unfold getRepair
  dsimp only
  rw [h.valid, h.statusAt, h.fdAt]
  by_cases htop : q.statusAt (q.hdl.valid - 1) = 0
  case neg =>
    rw [if_neg htop, if_neg htop]
    exact ⟨rfl, h⟩
  case pos =>
    -- closing never fails
    simp only [if_pos htop, closeconn_zero, ne_eq, not_true, if_false]
    have htwin : Twin
        (if q.fdAt (q.hdl.valid - 1) = 0 then (sckClientCloseconn (q.fdAt (q.hdl.valid - 1)) p).2 else p)
        (if q.fdAt (q.hdl.valid - 1) = 0 then (sckClientCloseconn (q.fdAt (q.hdl.valid - 1)) q).2 else q) := by
      split
      · exact (closeconn_alike _ p q h).2
      · exact h
    generalize (if q.fdAt (q.hdl.valid - 1) = 0 then (sckClientCloseconn (q.fdAt (q.hdl.valid - 1)) p).2 else p) = p1
      at htwin ⊢
    generalize (if q.fdAt (q.hdl.valid - 1) = 0 then (sckClientCloseconn (q.fdAt (q.hdl.valid - 1)) q).2 else q) = q1
      at htwin ⊢
    obtain ⟨ret, connfd, ops, hconnect⟩ := connect_uniform q1.hdl.serverport q1.hdl.connecttime o
    rw [htwin.serverport, htwin.connecttime, hconnect, hconnect]
    dsimp only
    have hacts := htwin.acts ops ops
    cases connfd with
    | none =>
      dsimp only
      split
      · exact ⟨rfl, (hacts.act _ _).storeFd rfl _⟩
      · exact ⟨rfl, hacts⟩
    | some fd =>
      dsimp only
      split
      · exact ⟨rfl, ((hacts.storeFd rfl _).act _ _).storeFd rfl _⟩
      · exact ⟨rfl, hacts.storeFd rfl _⟩

/-- The two results of `sckCltPool_getConnet` as one. -/
def getResult (r : Int × Option Int × Pool) : (Int × Option Int) × Pool := ((r.1, r.2.1), r.2.2)

theorem getEnd_alike (ret : Int) : Alike fun p => getResult (getEnd ret p) := by
  intro p q h
  unfold getEnd getResult
  split
  · have hpop := h.setValid (congrArg (· - 1) h.valid)
    refine ⟨?_, hpop.act _ _⟩
    show (ret, some ((p.setValid (p.hdl.valid - 1)).fdAt (p.hdl.valid - 1))) =
      (ret, some ((q.setValid (q.hdl.valid - 1)).fdAt (q.hdl.valid - 1)))
    rw [hpop.fdAt, h.valid]
  · exact ⟨rfl, h.act _ _⟩

theorem getRest_alike (o : ConnectOutcome) :
    Alike fun p => getResult (getEnd (getRepair o p).1 (getRepair o p).2) := by
  intro p q h
  obtain ⟨hret, hrep⟩ := getRepair_alike o p q h
  dsimp only
  rw [hret]
  exact getEnd_alike _ _ _ hrep

theorem getTest_eq {p q : Pool} (h : Twin p q) : getTest p = getTest q := by
  unfold getTest
  rw [h.valid]
  exact if_congr h.terminated rfl rfl

theorem getRetest_eq {p q : Pool} (h : Twin p q) : getRetest p = getRetest q := by
  unfold getRetest
  rw [h.valid]
  split
  · rfl
  · exact if_congr h.terminated rfl rfl

theorem get_alike (handle connfd : Bool) (o : ConnectOutcome) :
    Alike fun p => getResult (sckCltPoolGetConnet handle connfd o p) := by
  intro p q h
  unfold sckCltPoolGetConnet
  split
  · exact ⟨rfl, h.act _ _⟩
  have hlock := h.act (.lock true) (.lock true)
  have hsleep := hlock.act (.usleep (p.act (.lock true)).hdl.sTimeout) (.usleep (q.act (.lock true)).hdl.sTimeout)
  dsimp only
  rw [getTest_eq hlock]
  cases getTest (q.act (.lock true)) with
  | error ret => exact getEnd_alike ret _ _ (hlock.act _ _)
  | ok sleeps =>
    cases sleeps with
    | false => exact getRest_alike o _ _ hlock
    | true =>
      dsimp only
      rw [getRetest_eq hsleep]
      cases getRetest ((q.act (.lock true)).act (.usleep (q.act (.lock true)).hdl.sTimeout)) with
      | none => exact getRest_alike o _ _ hsleep
      | some r => exact getEnd_alike r.1 _ _ (hsleep.act _ _)

theorem putRepair_alike (connfd : Int) (o : ConnectOutcome) : Alike (putRepair connfd o) := by
  intro p q h
  obtain ⟨-, htwin⟩ := closeconn_alike connfd p q h
  unfold putRepair
  simp only [closeconn_zero, ne_eq, not_true, if_false]
  generalize (sckClientCloseconn connfd p).2 = p1 at htwin ⊢
  generalize (sckClientCloseconn connfd q).2 = q1 at htwin ⊢
  obtain ⟨ret, fd, ops, hconnect⟩ := connect_uniform q1.hdl.serverport q1.hdl.connecttime o
  rw [htwin.serverport, htwin.connecttime, hconnect, hconnect]
  dsimp only
  split
  · exact ⟨rfl, (htwin.acts _ _).act _ _⟩
  · exact ⟨rfl, (htwin.acts _ _).push _⟩

theorem put_alike (handle : Bool) (connfd validFlag : Int) (o : ConnectOutcome) :
    Alike (sckCltPoolPutConnet handle connfd validFlag o) := by
  intro p q h
  have hlock := h.act (.lock true) (.lock true)
  unfold sckCltPoolPutConnet
  split
  · exact ⟨rfl, (h.act _ _).act _ _⟩
  dsimp only
  by_cases ht : (q.act (.lock true)).hdl.terminated = 1
  · rw [if_pos ht, if_pos (hlock.terminated.mpr ht)]
    exact ⟨rfl, ((hlock.act _ _).storeFd h.valid connfd).bump.act _ _⟩
  · rw [if_neg ht, if_neg (mt hlock.terminated.mp ht)]
    simp only [hlock.fdAt, hlock.valid, hlock.bounds]
    split
    · exact ⟨rfl, (hlock.act _ _).act _ _⟩
    split
    · exact ⟨rfl, (hlock.act _ _).act _ _⟩
    split
    · exact ⟨rfl, (hlock.push connfd).act _ _⟩
    · obtain ⟨hret, hrep⟩ := putRepair_alike connfd o _ _ hlock
      exact ⟨hret, hrep.act _ _⟩

/-! ## Runs of calls -/

inductive PoolCall where
  | get (handle connfd : Bool) (o : ConnectOutcome)
  | put (handle : Bool) (connfd validFlag : Int) (o : ConnectOutcome)
  deriving DecidableEq

/-- The return code and, of a get, `*connfd`. -/
def PoolCall.exec : PoolCall → Pool → (Int × Option Int) × Pool
  | .get handle connfd o, p => getResult (sckCltPoolGetConnet handle connfd o p)
  | .put handle connfd validFlag o, p =>
    let (ret, p) := sckCltPoolPutConnet handle connfd validFlag o p
    ((ret, none), p)

def results : List PoolCall → Pool → List (Int × Option Int)
  | [], _ => []
  | call :: calls, p => (call.exec p).1 :: results calls (call.exec p).2

theorem exec_alike (call : PoolCall) : Alike call.exec := by
  intro p q h
  cases call with
  | get handle connfd o => exact get_alike handle connfd o p q h
  | put handle connfd validFlag o =>
    obtain ⟨hret, htwin⟩ := put_alike handle connfd validFlag o p q h
    exact ⟨Prod.ext hret rfl, htwin⟩

theorem results_twin {p q : Pool} (h : Twin p q) (calls : List PoolCall) : results calls p = results calls q := by
  induction calls generalizing p q with
  | nil => rfl
  | cons call calls ih =>
    obtain ⟨hresult, htwin⟩ := exec_alike call p q h
    rw [results, results, hresult, ih htwin]

/-! ## Two runs of `sckCltPool_init` -/

/-- What is found in the memory that the three `malloc`s return. -/
structure Contents where
  hdl : SockePoolHandle
  fdCells : Nat → Int
  statusCells : Nat → Int

/-- The same outcomes of `malloc` on memory with these contents. -/
def InitMem.refill (mem : InitMem) (c : Contents) : InitMem :=
  { mem with hdl := mem.hdl.map fun _ => c.hdl, fdCells := c.fdCells, statusCells := c.statusCells }

/-- The arrays that `sckCltPool_init` gets. -/
def InitMem.allocated (mem : InitMem) (bounds : Int) : List Nat :=
  if mem.hdl = none ∨ bounds < 0 then []
  else match mem.fdArray with
    | none => []
    | some addr => addr :: mem.statusArray.toList

/-- The two runs agree, and free only what they allocated. -/
structure Independent (mem : InitMem) (param : SCKClitPoolParam) (outs : Nat → ConnectOutcome) (c c' : Contents) :
    Prop where
  code : (sckCltPoolInit (mem.refill c) param outs).1 = (sckCltPoolInit (mem.refill c') param outs).1
  closed : closes (sckCltPoolInit (mem.refill c) param outs).2.2 = closes (sckCltPoolInit (mem.refill c') param outs).2.2
  freed : ∀ x ∈ [c, c'], ∀ addr, .free addr ∈ (sckCltPoolInit (mem.refill x) param outs).2.2 →
    addr ∈ mem.allocated param.bounds
  later : ∀ hdl ops hdl' ops', sckCltPoolInit (mem.refill c) param outs = (0, some hdl, ops) →
    sckCltPoolInit (mem.refill c') param outs = (0, some hdl', ops') →
    ∀ calls, results calls ⟨hdl, ops⟩ = results calls ⟨hdl', ops'⟩

/-! ## What the runs read -/

/-- `sckClient_connect` returns 0. -/
def ConnectOutcome.connects (param : SCKClitPoolParam) : ConnectOutcome → Bool
  | .noSocket _ => false
  | .socket _ ret _ =>
    !(decide (param.serverport ≤ 0) || decide (param.serverport > 65537) || decide (param.connecttime < 0)) && ret = 0

/-- What `sckClient_connect` stores though it fails. -/
def ConnectOutcome.leaves (param : SCKClitPoolParam) : ConnectOutcome → Option Int
  | .noSocket _ => none
  | .socket fd ret errno =>
    if param.serverport ≤ 0 ∨ param.serverport > 65537 ∨ param.connecttime < 0 then none
    else if ret = -1 ∧ errno = ETIMEDOUT then none
    else some fd

/-- The first connection that fails. -/
def firstFailed (param : SCKClitPoolParam) (outs : Nat → ConnectOutcome) : Option Nat :=
  (List.range param.bounds.toNat).find? fun i => !(outs i).connects param

/-- What slot `i` holds after `sckClient_connect` failed for slot `k ≤ i`. -/
def staleFd (param : SCKClitPoolParam) (o : ConnectOutcome) (k : Nat) (c : Contents) (i : Nat) : Int :=
  if i = k then (o.leaves param).getD (c.fdCells i) else c.fdCells i

/-- The numbers that are marked for closing from slot `k` on. -/
def stale (param : SCKClitPoolParam) (o : ConnectOutcome) (k : Nat) (c : Contents) : List Int :=
  (List.range' k (param.bounds.toNat - k)).filterMap fun i =>
    if c.statusCells i = 1 ∧ 0 ≤ staleFd param o k c i then some (staleFd param o k c i) else none

/-- What the two runs read before they write it does not tell them apart. -/
def ContentsAgree (mem : InitMem) (param : SCKClitPoolParam) (outs : Nat → ConnectOutcome) (c c' : Contents) : Prop :=
  if mem.hdl = none then True
  else if param.bounds < 0 ∨ mem.fdArray = none then c.hdl.statusArray.addr = 0 ∧ c'.hdl.statusArray.addr = 0
  else if mem.statusArray = none then True
  else match firstFailed param outs with
    | some k => stale param (outs k) k c = stale param (outs k) k c'
    | none => c.hdl.terminated = 1 ↔ c'.hdl.terminated = 1

/-! ## The connect loop -/

section
variable {param : SCKClitPoolParam} {outs : Nat → ConnectOutcome} {c c' : Contents}

/-- An operation that gives something back. -/
def PoolOp.releases : PoolOp → Bool
  | .close _ | .free _ => true
  | _ => false

/-- Nothing was given back yet. -/
def Pool.Keeps (p : Pool) : Prop := ∀ op ∈ p.ops, op.releases = false

theorem Pool.Keeps.acts {p : Pool} (h : p.Keeps) {ops : List PoolOp} (hops : ∀ op ∈ ops, op.releases = false) :
    (p.acts ops).Keeps := by
  intro op hop
  rcases List.mem_append.mp hop with hop | hop
  · exact h op hop
  · exact hops op hop

theorem Pool.Keeps.act {p : Pool} (h : p.Keeps) (op : PoolOp) (hop : op.releases = false) : (p.act op).Keeps :=
  h.acts fun _ hx => List.mem_singleton.mp hx ▸ hop

theorem closes_keeps {ops : List PoolOp} (h : ∀ op ∈ ops, op.releases = false) : closes ops = [] := by
  refine List.filterMap_eq_nil_iff.mpr fun op hop => ?_
  cases op with
  | close fd => cases h _ hop
  | _ => rfl

/-- The number of the socket. -/
def ConnectOutcome.sockfd : ConnectOutcome → Int
  | .noSocket _ => 0
  | .socket fd _ _ => fd

theorem ConnectOutcome.sockfd_nonneg (o : ConnectOutcome) : 0 ≤ o.sockfd := by
  cases o with
  | noSocket => exact Int.le_refl 0
  | socket fd => exact Int.natCast_nonneg fd

theorem connect_connects {o : ConnectOutcome} (h : o.connects param = true) (p : Pool) :
    ∃ ops, (∀ op ∈ ops, op.releases = false) ∧
      sckClientConnect param.serverport param.connecttime o p = (0, some o.sockfd, p.acts ops) := by
  cases o with
  | noSocket errno => cases h
  | socket fd ret errno =>
    simp only [ConnectOutcome.connects, Bool.and_eq_true, Bool.not_eq_true', Bool.or_eq_false_iff,
      decide_eq_false_iff_not, decide_eq_true_eq] at h
    obtain ⟨⟨⟨h1, h2⟩, h3⟩, rfl⟩ := h
    refine ⟨[.socket fd], fun op hop => List.mem_singleton.mp hop ▸ rfl, ?_⟩
    rw [sckClientConnect, if_neg (by omega)]
    rfl

theorem connect_fails {o : ConnectOutcome} (ho : o.ok = true) (h : o.connects param = false) (p : Pool) :
    ∃ ret ops, ret ≠ 0 ∧ (∀ op ∈ ops, op.releases = false) ∧
      sckClientConnect param.serverport param.connecttime o p = (ret, o.leaves param, p.acts ops) := by
  unfold sckClientConnect
  split
  case isTrue hparam =>
    refine ⟨sckErrParam, [.log sckErrParam
      "func sckClient_connect() err, check  (ip==NULL || connfd==NULL || port<=0 || port>65537 || connecttime < 0)"],
      by decide, fun op hop => List.mem_singleton.mp hop ▸ rfl, ?_⟩
    have hleaves : o.leaves param = none := by
      cases o with
      | noSocket => rfl
      | socket => exact if_pos hparam
    rw [hleaves]
    rfl
  case isFalse hparam =>
    cases o with
    | noSocket errno =>
      refine ⟨errno, [], by simpa [ConnectOutcome.ok] using ho, fun op hop => absurd hop List.not_mem_nil, ?_⟩
      simp [Pool.acts, ConnectOutcome.leaves]
    | socket fd ret errno =>
      have hret : ret ≠ 0 := by
        rintro rfl
        simp [ConnectOutcome.connects] at h
        omega
      have hleaves : (ConnectOutcome.socket fd ret errno).leaves param =
          if ret = -1 ∧ errno = ETIMEDOUT then none else some (fd : Int) := if_neg hparam
      rw [hleaves]
      dsimp only
      split
      case isTrue hneg =>
        split
        · exact ⟨sckErrTimeOut, [.socket fd], by decide, fun op hop => List.mem_singleton.mp hop ▸ rfl, rfl⟩
        · refine ⟨ret, [.socket fd, .log ret "func connect_timeout() err"], hret, ?_, ?_⟩
          · intro op hop
            rcases List.mem_pair.mp hop with rfl | rfl <;> rfl
          · simp [Pool.acts, Pool.act]
      case isFalse hneg =>
        rw [if_neg (by omega)]
        exact ⟨ret, [.socket fd], hret, fun op hop => List.mem_singleton.mp hop ▸ rfl, rfl⟩

/-- The handle after `i` connections. -/
def handleAt (param : SCKClitPoolParam) (outs : Nat → ConnectOutcome) (addr addr' : Nat) (c : Contents) (i : Nat) :
    SockePoolHandle :=
  { c.hdl with
    fdArray := ⟨addr, (List.range param.bounds.toNat).map fun j => if j < i then (outs j).sockfd else c.fdCells j⟩
    statusArray := ⟨addr', (List.range param.bounds.toNat).map fun j => if j < i then 1 else c.statusCells j⟩
    serverport := param.serverport
    connecttime := param.connecttime
    bounds := param.bounds
    valid := i
    nvalid := param.bounds - i
    sTimeout := 1 }

theorem set_map_range {n i : Nat} (f g : Nat → Int) :
    ((List.range n).map fun j => if j < i then f j else g j).set i (f i) =
      (List.range n).map fun j => if j < i + 1 then f j else g j := by
  apply List.ext_getElem
  · simp
  · intro j h1 h2
    rw [List.getElem_set]
    simp only [List.getElem_map, List.getElem_range]
    by_cases hji : i = j
    · subst hji
      simp
    · rw [if_neg hji]
      have hiff : j < i + 1 ↔ j < i := by omega
      simp only [hiff]

theorem getD_map_range {n j : Nat} (f : Nat → Int) (hj : j < n) : ((List.range n).map f).getD j 0 = f j := by
  simp [List.getD_eq_getElem?_getD, hj]

/-- The connect loop stopped at slot `k`. -/
structure Stopped (param : SCKClitPoolParam) (outs : Nat → ConnectOutcome) (addr addr' : Nat) (c : Contents) (k : Nat)
    (p : Pool) : Prop where
  lt : k < param.bounds.toNat
  valid : p.hdl.valid = k
  bounds : p.hdl.bounds = param.bounds
  addr : p.hdl.fdArray.addr = addr
  addr' : p.hdl.statusArray.addr = addr'
  fdAt : ∀ j < param.bounds.toNat, p.fdAt j = if j < k then (outs j).sockfd else staleFd param (outs k) k c j
  statusAt : ∀ j < param.bounds.toNat, p.statusAt j = if j < k then 1 else c.statusCells j
  keeps : p.Keeps

/-- The connect loop stops at the first failure, or makes all connections. -/
inductive LoopEnd (param : SCKClitPoolParam) (outs : Nat → ConnectOutcome) (addr addr' : Nat) (c : Contents)
    (r : Int × Pool) : Option Nat → Prop
  | all : r.1 = 0 → r.2.hdl = handleAt param outs addr addr' c param.bounds.toNat → r.2.Keeps →
      LoopEnd param outs addr addr' c r none
  | stopped {k} : Stopped param outs addr addr' c k r.2 → LoopEnd param outs addr addr' c r (some k)

/-- The failed `sckClient_connect` stores `fd`, or nothing. -/
theorem stopped_of_leaves {addr addr' k : Nat} {p : Pool} (hk : k < param.bounds.toNat)
    (hp : p.hdl = handleAt param outs addr addr' c k) (hkeeps : p.Keeps) (ret : Int) :
    Stopped param outs addr addr' c k ((match (outs k).leaves param with
      | some fd => p.storeFd k fd
      | none => p).act (.log ret "func sckClient_connect() err")) := by
  have hvalid : p.hdl.valid = k := by rw [hp]; rfl
  have hbounds : p.hdl.bounds = param.bounds := by rw [hp]; rfl
  have haddr : p.hdl.fdArray.addr = addr := by rw [hp]; rfl
  have haddr' : p.hdl.statusArray.addr = addr' := by rw [hp]; rfl
  have hfdCells : p.hdl.fdArray.cells =
      (List.range param.bounds.toNat).map fun j => if j < k then (outs j).sockfd else c.fdCells j := by rw [hp]; rfl
  have hstatusCells : p.hdl.statusArray.cells =
      (List.range param.bounds.toNat).map fun j => if j < k then 1 else c.statusCells j := by rw [hp]; rfl
  have hstatus : ∀ j < param.bounds.toNat, p.statusAt j = if j < k then 1 else c.statusCells j := by
    intro j hj
    rw [Pool.statusAt, hstatusCells, Int.toNat_natCast, getD_map_range _ hj]
  have hfd : ∀ j < param.bounds.toNat, p.fdAt j = if j < k then (outs j).sockfd else c.fdCells j := by
    intro j hj
    rw [Pool.fdAt, hfdCells, Int.toNat_natCast, getD_map_range _ hj]
  cases hleaves : (outs k).leaves param with
  | none =>
    refine ⟨hk, hvalid, hbounds, haddr, haddr', fun j hj => (hfd j hj).trans ?_, hstatus, hkeeps.act _ rfl⟩
    unfold staleFd
    rw [hleaves, Option.getD_none, ite_self]
  | some fd =>
    refine ⟨hk, hvalid, hbounds, haddr, haddr', fun j hj => ?_, hstatus, (hkeeps.act (.storeFd k) rfl).act _ rfl⟩
    show (p.hdl.fdArray.cells.set k fd).getD j 0 = _
    unfold staleFd
    rw [hleaves, Option.getD_some]
    by_cases hjk : j = k
    · subst hjk
      have hlen : j < p.hdl.fdArray.cells.length := by rw [hfdCells]; simpa using hj
      rw [if_neg (Nat.lt_irrefl j), if_pos rfl, List.getD_eq_getElem?_getD, List.getElem?_set_self hlen, Option.getD_some]
    · rw [if_neg hjk, ← hfd j hj, List.getD_eq_getElem?_getD, List.getElem?_set_ne (Ne.symm hjk),
        ← List.getD_eq_getElem?_getD]
      rfl

theorem initConnect_loop (ho : ∀ i, (outs i).ok = true) (addr addr' : Nat) (n : Nat) :
    ∀ (i : Nat) (p : Pool), i + n = param.bounds.toNat → p.hdl = handleAt param outs addr addr' c i → p.Keeps →
      LoopEnd param outs addr addr' c (initConnect outs n i 0 p)
        ((List.range' i n).find? fun j => !(outs j).connects param) := by
  induction n with
  | zero =>
    intro i p hi hp hk
    rw [Nat.add_zero] at hi
    subst hi
    exact .all rfl hp hk
  | succ n ih =>
    intro i p hi hp hk
    have hport : p.hdl.serverport = param.serverport := by rw [hp]; rfl
    have htime : p.hdl.connecttime = param.connecttime := by rw [hp]; rfl
    rw [List.range'_succ]
    cases hc : (outs i).connects param with
    | true =>
      obtain ⟨ops, hops, hconnect⟩ := connect_connects hc p
      rw [List.find?_cons_of_neg (by simp [hc]), initConnect, hport, htime, hconnect]
      simp only [ne_eq, not_true, if_false]
      apply ih (i + 1) _ (by omega)
      · simp only [Pool.storeFd, Pool.storeStatus, Pool.acts, hp, handleAt, Int.toNat_natCast,
          set_map_range (fun j => (outs j).sockfd), set_map_range fun _ => 1, Int.natCast_add, Int.sub_sub]
        rfl
      · exact ((hk.acts hops).act (.storeFd i) rfl).act (.storeStatus i) rfl
    | false =>
      obtain ⟨ret, ops, hret, hops, hconnect⟩ := connect_fails (ho i) hc p
      rw [List.find?_cons_of_pos (by simp [hc]), initConnect, hport, htime, hconnect]
      simp only [ne_eq, hret, not_false_eq_true, if_true]
      have hp' : (p.acts ops).hdl = handleAt param outs addr addr' c i := hp
      exact .stopped (stopped_of_leaves (by omega) hp' (hk.acts hops) ret)

/-! ## The closing loop -/

/-- What the loop closes in slot `j`. -/
def Pool.marked (p : Pool) (j : Nat) : Option Int := if p.statusAt j = 1 ∧ 0 ≤ p.fdAt j then some (p.fdAt j) else none

theorem initClose_ops (n : Nat) : ∀ (i : Nat) (p : Pool),
    initClose n i p = p.acts (((List.range' i n).filterMap p.marked).map PoolOp.close) := by
  induction n with
  | zero =>
    intro i p
    simp [initClose, Pool.acts]
  | succ n ih =>
    intro i p
    rw [initClose, ih, List.range'_succ, List.filterMap_cons]
    by_cases hs : p.statusAt i = 1
    · rw [if_pos hs]
      by_cases hfd : 0 ≤ p.fdAt i
      · have hclose : (sckClientCloseconn (p.fdAt i) p).2 = p.act (.close (p.fdAt i)) := by
          rw [sckClientCloseconn, if_pos hfd]
        have hmarked : p.marked i = some (p.fdAt i) := if_pos ⟨hs, hfd⟩
        rw [hclose, hmarked]
        show (p.act _).acts (((List.range' (i + 1) n).filterMap p.marked).map _) = _
        simp [Pool.acts, Pool.act]
      · have hclose : (sckClientCloseconn (p.fdAt i) p).2 = p := by
          rw [sckClientCloseconn, if_neg hfd]
        have hmarked : p.marked i = none := if_neg fun h => hfd h.2
        rw [hclose, hmarked]
    · have hmarked : p.marked i = none := if_neg fun h => hs h.1
      rw [if_neg hs, hmarked]

/-- The connections that were made are closed, and what is marked behind them. -/
theorem Stopped.closes {addr addr' k : Nat} {p : Pool} (h : Stopped param outs addr addr' c k p)
    (hout : ∀ j < k, 0 ≤ (outs j).sockfd) :
    (List.range' 0 param.bounds.toNat).filterMap p.marked =
      (List.range' 0 k).map (fun j => (outs j).sockfd) ++ stale param (outs k) k c := by
  have hlt := h.lt
  have hsplit : List.range' 0 param.bounds.toNat = List.range' 0 k ++ List.range' k (param.bounds.toNat - k) := by
    have := List.range'_append_1 (s := 0) (m := k) (n := param.bounds.toNat - k)
    rw [Nat.zero_add] at this
    rw [this]
    congr 1
    omega
  rw [hsplit, List.filterMap_append]
  congr 1
  · rw [← List.filterMap_eq_map]
    refine List.filterMap_congr fun j hj => ?_
    have hjk : j < k := by
      have := List.mem_range'_1.mp hj
      omega
    have hfd := h.fdAt j (by omega)
    have hstatus := h.statusAt j (by omega)
    rw [if_pos hjk] at hfd hstatus
    rw [Pool.marked, hfd, hstatus, if_pos ⟨rfl, hout j hjk⟩]
    rfl
  · refine List.filterMap_congr fun j hj => ?_
    have hj := List.mem_range'_1.mp hj
    have hjk : ¬ j < k := by omega
    have hfd := h.fdAt j (by omega)
    have hstatus := h.statusAt j (by omega)
    rw [if_neg hjk] at hfd hstatus
    rw [Pool.marked, hfd, hstatus]

/-! ## The end of each path -/

theorem initEnd_error (ret : Int) (hret : ret ≠ 0) (p : Pool) :
    (initEnd ret p).1 = ret ∧ CSocket.closes (initEnd ret p).2.2 = CSocket.closes p.ops ∧
    ∀ addr, .free addr ∈ (initEnd ret p).2.2 ↔
      .free addr ∈ p.ops ∨ addr ≠ 0 ∧ (addr = p.hdl.fdArray.addr ∨ addr = p.hdl.statusArray.addr) := by
  have hops : (initEnd ret p).2.2 = p.ops ++ [PoolOp.unlock true] ++
      (if p.hdl.fdArray.addr ≠ 0 then [PoolOp.free p.hdl.fdArray.addr] else []) ++
      (if p.hdl.statusArray.addr ≠ 0 then [PoolOp.free p.hdl.statusArray.addr] else []) ++
      [PoolOp.freeHandle, PoolOp.log ret "func pthread_mutex_unlock() err"] := by
    by_cases hfd : p.hdl.fdArray.addr = 0 <;> by_cases hst : p.hdl.statusArray.addr = 0 <;>
      simp [initEnd, hret, Pool.act, hfd, hst]
  refine ⟨by simp [initEnd, hret], ?_, fun addr => ?_⟩
  · rw [hops]
    simp only [closes_append]
    split <;> split <;> simp [closes]
  · rw [hops]
    by_cases hfd : p.hdl.fdArray.addr = 0 <;> by_cases hst : p.hdl.statusArray.addr = 0 <;> simp [hfd, hst] <;> grind

variable {mem : InitMem}

theorem init_noHandle (h : mem.hdl = none) (c : Contents) :
    sckCltPoolInit (mem.refill c) param outs =
      (sckErrMalloc, none, [.log sckErrMalloc "func sckCltPool_init(), check malloc err"]) := by
  simp [sckCltPoolInit, InitMem.refill, h]

/-- The handle that `sckCltPool_init` works on before it has the arrays. -/
def handleStart (param : SCKClitPoolParam) (c : Contents) : SockePoolHandle :=
  { c.hdl with
    fdArray.addr := 0
    serverport := param.serverport
    connecttime := param.connecttime
    bounds := param.bounds
    valid := 0
    nvalid := param.bounds
    sTimeout := 1 }

theorem init_noFds (h : mem.hdl ≠ none) (hfd : param.bounds < 0 ∨ mem.fdArray = none) (c : Contents) :
    sckCltPoolInit (mem.refill c) param outs = initEnd sckErrMalloc ⟨handleStart param c,
      [.lock true, .log sckErrMalloc "func sckCltPool_init(), check malloc err"]⟩ := by
  obtain ⟨raw, hraw⟩ := Option.ne_none_iff_exists'.mp h
  have hmalloc : mallocInts param.bounds mem.fdArray c.fdCells = none := by
    unfold mallocInts
    split
    · rfl
    · rcases hfd with hneg | hnone
      · omega
      · rw [hnone]
        rfl
  simp only [sckCltPoolInit, InitMem.refill, hraw, Option.map_some, hmalloc]
  rfl

variable (outs) in
theorem init_noStatuses (h : mem.hdl ≠ none) (hb : 0 ≤ param.bounds) {addr : Nat} (hfd : mem.fdArray = some addr)
    (hst : mem.statusArray = none) (c : Contents) :
    ∃ hdl : SockePoolHandle, hdl.fdArray.addr = addr ∧ hdl.statusArray.addr = 0 ∧
      sckCltPoolInit (mem.refill c) param outs = initEnd sckErrMalloc ⟨hdl,
        [.lock true, .log sckErrMalloc "func sckCltPool_init(), check malloc err"]⟩ := by
  obtain ⟨raw, hraw⟩ := Option.ne_none_iff_exists'.mp h
  have hneg : ¬ param.bounds < 0 := Int.not_lt.mpr hb
  simp only [sckCltPoolInit, InitMem.refill, hraw, Option.map_some, mallocInts, hneg, if_false, hfd, hst, Option.map_none]
  exact ⟨_, rfl, rfl, rfl⟩

/-- With both arrays, the connect loop runs from slot 0. -/
theorem init_loop (h : mem.hdl ≠ none) (hb : 0 ≤ param.bounds) {addr addr' : Nat} (hfd : mem.fdArray = some addr)
    (hst : mem.statusArray = some addr') (ho : ∀ i, (outs i).ok = true) (c : Contents) :
    ∃ r, LoopEnd param outs addr addr' c r (firstFailed param outs) ∧
      sckCltPoolInit (mem.refill c) param outs =
        if r.2.hdl.valid < r.2.hdl.bounds then
          initEnd sckErrPoolCreateConn (initClose r.2.hdl.bounds.toNat 0 (initTooFew r.2))
        else initEnd r.1 r.2 := by
  obtain ⟨raw, hraw⟩ := Option.ne_none_iff_exists'.mp h
  have hneg : ¬ param.bounds < 0 := Int.not_lt.mpr hb
  have hstart : (⟨handleAt param outs addr addr' c 0, [.lock true]⟩ : Pool).Keeps :=
    fun op hop => List.mem_singleton.mp hop ▸ rfl
  have hloop := initConnect_loop ho addr addr' param.bounds.toNat 0 ⟨handleAt param outs addr addr' c 0, [.lock true]⟩
    (Nat.zero_add _) rfl hstart
  rw [← List.range_eq_range'] at hloop
  refine ⟨_, hloop, ?_⟩
  have hcells : ∀ f g : Nat → Int, (List.range param.bounds.toNat).map (fun j => if j < 0 then f j else g j) =
      (List.range param.bounds.toNat).map g := fun f g => List.map_congr_left fun j _ => if_neg (Nat.not_lt_zero j)
  simp only [sckCltPoolInit, InitMem.refill, hraw, Option.map_some, mallocInts, hneg, if_false, hfd, hst, handleAt, hcells,
    Int.natCast_zero, Int.sub_zero]

/-! ## Agreement -/

theorem initEnd_noRelease {ret : Int} (hret : ret ≠ 0) {p : Pool} (h : p.Keeps) :
    closes (initEnd ret p).2.2 = [] ∧
    ∀ addr, .free addr ∈ (initEnd ret p).2.2 ↔
      addr ≠ 0 ∧ (addr = p.hdl.fdArray.addr ∨ addr = p.hdl.statusArray.addr) := by
  obtain ⟨-, hcloses, hfree⟩ := initEnd_error ret hret p
  refine ⟨hcloses.trans (closes_keeps h), fun addr => (hfree addr).trans ?_⟩
  constructor
  · rintro (hmem | hmem)
    · cases h _ hmem
    · exact hmem
  · exact .inr

/-- Runs that fail before they connect close nothing. -/
theorem independent_of_error {r r' : Int × Option SockePoolHandle × List PoolOp} {ret : Int} (hret : ret ≠ 0)
    (h : sckCltPoolInit (mem.refill c) param outs = r) (h' : sckCltPoolInit (mem.refill c') param outs = r')
    (hr : r.1 = ret) (hr' : r'.1 = ret) :
    Independent mem param outs c c' ↔ closes r.2.2 = closes r'.2.2 ∧
      (∀ addr, .free addr ∈ r.2.2 → addr ∈ mem.allocated param.bounds) ∧
      ∀ addr, .free addr ∈ r'.2.2 → addr ∈ mem.allocated param.bounds := by
  subst h h'
  constructor
  · intro hind
    exact ⟨hind.closed, hind.freed c (by simp), hind.freed c' (by simp)⟩
  · rintro ⟨hcloses, hfree, hfree'⟩
    refine ⟨hr.trans hr'.symm, hcloses, fun x hx => ?_, fun hdl ops hdl' ops' h0 => ?_⟩
    · rcases List.mem_pair.mp hx with rfl | rfl
      · exact hfree
      · exact hfree'
    · rw [h0] at hr
      exact absurd hr.symm hret

/-- Two pools with all their connections are the same but for `terminated`. -/
theorem handleAt_twin {addr addr' : Nat} (ops ops' : List PoolOp) :
    Twin ⟨handleAt param outs addr addr' c param.bounds.toNat, ops⟩
        ⟨handleAt param outs addr addr' c' param.bounds.toNat, ops'⟩ ↔
      (c.hdl.terminated = 1 ↔ c'.hdl.terminated = 1) := by
  have hcells (f g g' : Nat → Int) : (List.range param.bounds.toNat).map (fun j => if j < param.bounds.toNat then f j else g j) =
      (List.range param.bounds.toNat).map (fun j => if j < param.bounds.toNat then f j else g' j) := by
    refine List.map_congr_left fun j hj => ?_
    rw [if_pos (List.mem_range.mp hj), if_pos (List.mem_range.mp hj)]
  constructor
  · exact fun h => h.terminated
  · intro h
    refine ⟨?_, ?_, rfl, rfl, rfl, rfl, h⟩
    · exact congrArg (IntArray.mk addr) (hcells _ _ _)
    · exact congrArg (IntArray.mk addr') (hcells _ _ _)

/-- A pool with all its connections, asked for one, tells whether it takes itself for
terminated. -/
theorem get_full {addr addr' : Nat} (ops : List PoolOp) (o : ConnectOutcome) :
    (sckCltPoolGetConnet true true o ⟨handleAt param outs addr addr' c param.bounds.toNat, ops⟩).1 =
      sckErrPoolTerminated ↔ c.hdl.terminated = 1 := by
  constructor
  · intro h
    refine Classical.byContradiction fun ht => ?_
    have hstatus : 0 < (param.bounds.toNat : Int) → (Pool.mk (handleAt param outs addr addr' c param.bounds.toNat)
        ops).statusAt ((param.bounds.toNat : Int) - 1) ≠ 0 := by
      intro hpos
      have hlt : ((param.bounds.toNat : Int) - 1).toNat < param.bounds.toNat := by omega
      show ((List.range param.bounds.toNat).map _).getD _ 0 ≠ 0
      rw [getD_map_range _ hlt, if_pos hlt]
      decide
    have hend := get_end (p := ⟨handleAt param outs addr addr' c param.bounds.toNat, ops⟩) ht
      (Int.natCast_nonneg _) hstatus o
    generalize sckCltPoolGetConnet true true o _ = r at h hend
    have hcode : (0 : Int) ≠ sckErrPoolTerminated ∧ sckErrPoolGetConnValidIsZero ≠ sckErrPoolTerminated := by decide
    cases hend with
    | taken => exact hcode.1 h
    | empty => exact hcode.2 h
  · intro ht
    have htest : getTest ((Pool.mk (handleAt param outs addr addr' c param.bounds.toNat) ops).act (.lock true)) =
      .error sckErrPoolTerminated := if_pos ht
    rw [sckCltPoolGetConnet, if_neg (by decide)]
    dsimp only
    rw [htest]
    rfl

theorem allocated_some {addr : Nat} (h : mem.hdl ≠ none) (hb : 0 ≤ param.bounds) (hfd : mem.fdArray = some addr) :
    mem.allocated param.bounds = addr :: mem.statusArray.toList := by
  have hor : ¬ (mem.hdl = none ∨ param.bounds < 0) := by
    rintro (hnone | hneg)
    · exact h hnone
    · omega
  rw [InitMem.allocated, if_neg hor, hfd]

theorem allocated_none (h : param.bounds < 0 ∨ mem.fdArray = none) : mem.allocated param.bounds = [] := by
  unfold InitMem.allocated
  split
  · rfl
  · rename_i hor
    rcases h with hneg | hnone
    · exact absurd (.inr hneg) hor
    · rw [hnone]

theorem keeps_malloc (hdl : SockePoolHandle) :
    (Pool.mk hdl [.lock true, .log sckErrMalloc "func sckCltPool_init(), check malloc err"]).Keeps := by
  intro op hop
  rcases List.mem_pair.mp hop with rfl | rfl <;> rfl

/-- The pointer that is found in `statusArray` is freed. -/
theorem independent_noFds (h : mem.hdl ≠ none) (hfd : param.bounds < 0 ∨ mem.fdArray = none) :
    Independent mem param outs c c' ↔ c.hdl.statusArray.addr = 0 ∧ c'.hdl.statusArray.addr = 0 := by
  have hne : sckErrMalloc ≠ 0 := by decide
  have hr (c : Contents) := initEnd_noRelease hne (keeps_malloc (handleStart param c))
  have hfree (c : Contents) : (∀ addr, .free addr ∈ (initEnd sckErrMalloc ⟨handleStart param c,
      [.lock true, .log sckErrMalloc "func sckCltPool_init(), check malloc err"]⟩).2.2 → addr ∈ ([] : List Nat)) ↔
      c.hdl.statusArray.addr = 0 := by
    constructor
    · intro hall
      refine Classical.byContradiction fun haddr => ?_
      exact List.not_mem_nil (hall _ (((hr c).2 _).mpr ⟨haddr, .inr rfl⟩))
    · intro hzero addr hmem
      obtain ⟨hpos, hor⟩ := ((hr c).2 addr).mp hmem
      rcases hor with rfl | rfl
      · exact absurd rfl hpos
      · exact absurd hzero hpos
  rw [independent_of_error hne (init_noFds h hfd c) (init_noFds h hfd c') (initEnd_error _ hne _).1 (initEnd_error _ hne _).1,
    allocated_none hfd, hfree c, hfree c', (hr c).1, (hr c').1]
  simp

theorem independent_noStatuses (h : mem.hdl ≠ none) (hb : 0 ≤ param.bounds) {addr : Nat} (hfd : mem.fdArray = some addr)
    (hst : mem.statusArray = none) : Independent mem param outs c c' := by
  have hne : sckErrMalloc ≠ 0 := by decide
  obtain ⟨hdl, h1, h2, hinit⟩ := init_noStatuses outs h hb hfd hst c
  obtain ⟨hdl', h1', h2', hinit'⟩ := init_noStatuses outs h hb hfd hst c'
  have hfree (hdl : SockePoolHandle) (h1 : hdl.fdArray.addr = addr) (h2 : hdl.statusArray.addr = 0) (x : Nat)
      (hx : .free x ∈ (initEnd sckErrMalloc ⟨hdl,
        [.lock true, .log sckErrMalloc "func sckCltPool_init(), check malloc err"]⟩).2.2) :
      x ∈ mem.allocated param.bounds := by
    obtain ⟨hpos, hor⟩ := ((initEnd_noRelease hne (keeps_malloc hdl)).2 x).mp hx
    rw [allocated_some h hb hfd]
    rcases hor with rfl | rfl
    · rw [h1]
      exact List.mem_cons_self
    · exact absurd h2 hpos
  refine (independent_of_error hne hinit hinit' (initEnd_error _ hne _).1 (initEnd_error _ hne _).1).mpr ⟨?_, ?_, ?_⟩
  · rw [(initEnd_noRelease hne (keeps_malloc hdl)).1, (initEnd_noRelease hne (keeps_malloc hdl')).1]
  · exact hfree hdl h1 h2
  · exact hfree hdl' h1' h2'

/-- What is closed after slot `k` failed, and what is freed. -/
theorem init_tooFew (h : mem.hdl ≠ none) (hb : 0 ≤ param.bounds) {addr addr' k : Nat} (hfd : mem.fdArray = some addr)
    (hst : mem.statusArray = some addr') (ho : ∀ i, (outs i).ok = true) (hk : firstFailed param outs = some k)
    (c : Contents) :
    (sckCltPoolInit (mem.refill c) param outs).1 = sckErrPoolCreateConn ∧
    closes (sckCltPoolInit (mem.refill c) param outs).2.2 =
      (List.range' 0 k).map (fun j => (outs j).sockfd) ++ stale param (outs k) k c ∧
    ∀ x, .free x ∈ (sckCltPoolInit (mem.refill c) param outs).2.2 → x ∈ mem.allocated param.bounds := by
  obtain ⟨r, hloop, hinit⟩ := init_loop h hb hfd hst ho c
  rw [hk] at hloop
  cases hloop with
  | stopped hs =>
    have hlt := hs.lt
    have hshort : r.2.hdl.valid < r.2.hdl.bounds := by
      rw [hs.valid, hs.bounds]
      omega
    have hfew : Stopped param outs addr addr' c k (initTooFew r.2) :=
      ⟨hlt, hs.valid, hs.bounds, hs.addr, hs.addr', hs.fdAt, hs.statusAt, (hs.keeps.act _ rfl).act _ rfl⟩
    rw [hinit, if_pos hshort, hs.bounds, initClose_ops, hfew.closes fun j _ => (outs j).sockfd_nonneg]
    obtain ⟨hcode, hcloses, hfree⟩ := initEnd_error sckErrPoolCreateConn (by decide)
      ((initTooFew r.2).acts (((List.range' 0 k).map (fun j => (outs j).sockfd) ++ stale param (outs k) k c).map .close))
    refine ⟨hcode, hcloses.trans ?_, fun x hx => ?_⟩
    · rw [Pool.acts, closes_append, closes_keeps hfew.keeps, closes_map_close, List.nil_append]
    · rw [allocated_some h hb hfd, hst]
      rcases (hfree x).mp hx with hmem | ⟨-, rfl | rfl⟩
      · rcases List.mem_append.mp hmem with hmem | hmem
        · cases hfew.keeps _ hmem
        · obtain ⟨fd, -, hfd⟩ := List.mem_map.mp hmem
          cases hfd
      · show (initTooFew r.2).hdl.fdArray.addr ∈ _
        rw [hfew.addr]
        exact List.mem_cons_self
      · show (initTooFew r.2).hdl.statusArray.addr ∈ _
        rw [hfew.addr']
        exact List.mem_cons_of_mem _ List.mem_cons_self

theorem independent_tooFew (h : mem.hdl ≠ none) (hb : 0 ≤ param.bounds) {addr addr' k : Nat}
    (hfd : mem.fdArray = some addr) (hst : mem.statusArray = some addr') (ho : ∀ i, (outs i).ok = true)
    (hk : firstFailed param outs = some k) :
    Independent mem param outs c c' ↔ stale param (outs k) k c = stale param (outs k) k c' := by
  obtain ⟨hcode, hcloses, hfree⟩ := init_tooFew h hb hfd hst ho hk c
  obtain ⟨hcode', hcloses', hfree'⟩ := init_tooFew h hb hfd hst ho hk c'
  have hne : sckErrPoolCreateConn ≠ 0 := by decide
  rw [independent_of_error hne rfl rfl hcode hcode', hcloses, hcloses', List.append_cancel_left_eq]
  exact ⟨fun hall => hall.1, fun hstale => ⟨hstale, hfree, hfree'⟩⟩

theorem independent_full (h : mem.hdl ≠ none) (hb : 0 ≤ param.bounds) {addr addr' : Nat}
    (hfd : mem.fdArray = some addr) (hst : mem.statusArray = some addr') (ho : ∀ i, (outs i).ok = true)
    (hk : firstFailed param outs = none) :
    Independent mem param outs c c' ↔ (c.hdl.terminated = 1 ↔ c'.hdl.terminated = 1) := by
  have hinit (c : Contents) : ∃ ops, (∀ op ∈ ops, op.releases = false) ∧ sckCltPoolInit (mem.refill c) param outs =
      (0, some (handleAt param outs addr addr' c param.bounds.toNat), ops) := by
    obtain ⟨r, hloop, hinit⟩ := init_loop h hb hfd hst ho c
    rw [hk] at hloop
    cases hloop with
    | all hret hhdl hkeeps =>
      have hfull : ¬ r.2.hdl.valid < r.2.hdl.bounds := by
        rw [hhdl]
        show ¬ ((param.bounds.toNat : Int) < param.bounds)
        omega
      have hunlock : (r.2.act (.unlock true)).Keeps := hkeeps.act _ rfl
      refine ⟨(r.2.act (.unlock true)).ops, hunlock, ?_⟩
      rw [hinit, if_neg hfull, hret, ← hhdl]
      rfl
  obtain ⟨ops, hops, h1⟩ := hinit c
  obtain ⟨ops', hops', h2⟩ := hinit c'
  constructor
  · intro hind
    have hget := hind.later _ _ _ _ h1 h2 [.get true true (.noSocket 1)]
    have hcode := congrArg (fun l => l.map Prod.fst) hget
    simp only [results, PoolCall.exec, getResult, List.map_cons, List.map_nil, List.cons.injEq, and_true] at hcode
    rw [← get_full ops (.noSocket 1), ← get_full ops' (.noSocket 1), hcode]
  · intro hterm
    refine ⟨by rw [h1, h2], by rw [h1, h2, closes_keeps hops, closes_keeps hops'], fun x hx a ha => ?_, ?_⟩
    · rcases List.mem_pair.mp hx with rfl | rfl
      · rw [h1] at ha
        cases hops _ ha
      · rw [h2] at ha
        cases hops' _ ha
    · intro hdl ops1 hdl' ops1' he he' calls
      rw [h1] at he
      rw [h2] at he'
      cases he
      cases he'
      exact results_twin ((handleAt_twin ops ops').mpr hterm) calls

/-- The two runs agree, and free only what is theirs, just if what they read before
they write it does not tell them apart. -/
theorem independent_iff (mem : InitMem) (param : SCKClitPoolParam) (outs : Nat → ConnectOutcome)
    (ho : ∀ i, (outs i).ok = true) (c c' : Contents) :
    Independent mem param outs c c' ↔ ContentsAgree mem param outs c c' := by
  unfold ContentsAgree
  split
  case isTrue hhdl =>
    have hne : sckErrMalloc ≠ 0 := by decide
    rw [independent_of_error hne (init_noHandle hhdl c) (init_noHandle hhdl c') rfl rfl]
    simp
  case isFalse hhdl =>
    split
    case isTrue hfd => exact independent_noFds hhdl hfd
    case isFalse hfd =>
      rw [not_or, Int.not_lt] at hfd
      obtain ⟨addr, haddr⟩ := Option.ne_none_iff_exists'.mp hfd.2
      split
      case isTrue hst => exact iff_of_true (independent_noStatuses hhdl hfd.1 haddr hst) trivial
      case isFalse hst =>
        obtain ⟨addr', haddr'⟩ := Option.ne_none_iff_exists'.mp hst
        split
        case h_1 k hk => exact independent_tooFew hhdl hfd.1 haddr haddr' ho hk
        case h_2 hk => exact independent_full hhdl hfd.1 haddr haddr' ho hk

/-- A pool of one connection; the two runs find 0 and 7 in `terminated`. -/
theorem independent_iff_single :
    Independent ⟨some {}, some 1, fun _ => 0, some 2, fun _ => 0⟩ ⟨80, 1, 0⟩ (fun i => .socket (3 + i) 0 0)
      ⟨{ terminated := 0 }, fun _ => 0, fun _ => 0⟩ ⟨{ terminated := 7 }, fun _ => 5, fun _ => 1⟩ := by
  refine (independent_iff _ _ _ (fun _ => rfl) _ _).mpr ?_
  show (0 : Int) = 1 ↔ (7 : Int) = 1
  decide

/-- Where a run finds 1 in `terminated`, the new pool gives out no connection. -/
theorem terminated_uninitialised :
    ∃ (mem : InitMem) (param : SCKClitPoolParam) (outs : Nat → ConnectOutcome) (c c' : Contents)
      (hdl hdl' : SockePoolHandle) (ops ops' : List PoolOp),
      sckCltPoolInit (mem.refill c) param outs = (0, some hdl, ops) ∧
      sckCltPoolInit (mem.refill c') param outs = (0, some hdl', ops') ∧
      results [.get true true (.noSocket 24)] ⟨hdl, ops⟩ = [(0, some 3)] ∧
      results [.get true true (.noSocket 24)] ⟨hdl', ops'⟩ = [(sckErrPoolTerminated, none)] ∧
      ¬ Independent mem param outs c c' := by
  refine ⟨⟨some {}, some 1, fun _ => 0, some 2, fun _ => 0⟩, ⟨80, 1, 0⟩, fun i => .socket (3 + i) 0 0,
    ⟨{ terminated := 0 }, fun _ => 0, fun _ => 0⟩, ⟨{ terminated := 1 }, fun _ => 0, fun _ => 0⟩,
    _, _, _, _, rfl, rfl, by decide +kernel, by decide +kernel, fun hind => ?_⟩
  have hlater := hind.later _ _ _ _ rfl rfl [.get true true (.noSocket 24)]
  revert hlater
  decide +kernel

end

end CSocket
