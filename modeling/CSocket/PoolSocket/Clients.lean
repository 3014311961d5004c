import CSocket.Lib.Lts
import CSocket.PoolSocket.Handle
import Mathlib.Data.List.Nodup
/-!
# The connection pool under its clients

Any number of clients call `sckCltPool_getConnet` and `sckCltPool_putConnet` on
one pool, each call atomic under `foo_mutex`. A client puts only what it holds,
and a put ends its hold. `Owned` is the invariant that makes the pool a
partition: the pooled descriptors and the held ones are pairwise distinct and
all open. `pool_invariant`: it holds in every reachable state, and no connection
is ever lost but to a reconnect that failed.
-/
namespace CSocket

/-! ## Descriptors -/

/-- The effect of one operation on the open descriptors. -/
def PoolOp.opens (fds : List Int) : PoolOp → List Int
  | .socket fd => fd :: fds
  | .close fd => fds.filter (· ≠ fd)
  | _ => fds

/-- The descriptors that these operations opened and did not close. -/
def opened (ops : List PoolOp) : List Int := ops.foldl PoolOp.opens []

/-- From open descriptors `fds` on, a new socket always gets a number that is
not open. -/
def freshFrom (fds : List Int) : List PoolOp → Bool
  | [] => true
  | .socket fd :: ops => !fds.contains (fd : Int) && freshFrom (fd :: fds) ops
  | op :: ops => freshFrom (op.opens fds) ops

def fresh (ops : List PoolOp) : Bool := freshFrom [] ops

theorem freshFrom_append (a b : List PoolOp) (fds : List Int) :
    freshFrom fds (a ++ b) = (freshFrom fds a && freshFrom (a.foldl PoolOp.opens fds) b) := by
  induction a generalizing fds with
  | nil => simp [freshFrom]
  | cons op a ih => cases op <;> simp [freshFrom, PoolOp.opens, ih, Bool.and_assoc]

theorem fresh_append (a b : List PoolOp) : fresh (a ++ b) = (fresh a && freshFrom (opened a) b) :=
  freshFrom_append a b []

theorem opened_append (a b : List PoolOp) : opened (a ++ b) = b.foldl PoolOp.opens (opened a) := by
  simp [opened]

/-- `socket()` reports a failure with an error number. -/
def ConnectOutcome.ok : ConnectOutcome → Bool
  | .noSocket errno => errno ≠ 0
  | .socket _ _ _ => true

/-! ## The system -/

/-- The pool, and who holds which descriptor. -/
structure PoolSys where
  pool : Pool
  held : List (Nat × Int) := []
  deriving DecidableEq

inductive ClientAct where
  | get (client : Nat) (o : ConnectOutcome)
  | put (client : Nat) (fd : Int) (validFlag : Int) (o : ConnectOutcome)
  deriving DecidableEq

/-- One call by one client. It is enabled when the outcome of its reconnect is a
possible one, and a put only for a descriptor the client holds. -/
def PoolSys.step (s : PoolSys) : ClientAct → Option PoolSys
  | .get client o =>
    let (_, connfd, pool) := sckCltPoolGetConnet true true o s.pool
    if o.ok ∧ fresh pool.ops then
      some { pool, held := (connfd.map fun fd => (client, fd)).toList ++ s.held }
    else none
  | .put client fd validFlag o =>
    let (_, pool) := sckCltPoolPutConnet true fd validFlag o s.pool
    if o.ok ∧ fresh pool.ops ∧ (client, fd) ∈ s.held then some { pool, held := s.held.erase (client, fd) }
    else none

/-- A pool as a successful `sckCltPool_init` leaves it, not terminated and with
room for a connection. -/
def PoolSys.Start (s : PoolSys) : Prop :=
  ∃ mem param outs, sckCltPoolInit mem param outs = (0, some s.pool.hdl, s.pool.ops) ∧
    1 ≤ s.pool.hdl.bounds ∧ s.pool.hdl.terminated = 0 ∧ (∀ i, (outs i).ok = true) ∧ fresh s.pool.ops = true ∧
    s.held = []

def PoolSys.Reachable (s : PoolSys) : Prop := ∃ s0 : PoolSys, s0.Start ∧ Lts.Reach PoolSys.step s0 s

/-! ## The invariant -/

/-- `fdArray[0..valid)` -/
def Pool.pooled (p : Pool) : List Int := p.hdl.fdArray.cells.take p.hdl.valid.toNat

/-- The reconnects of `sckCltPool_putConnet` that failed. -/
def Pool.failed (p : Pool) : Nat :=
  p.ops.countP fun op => match op with
    | .log _ text => text = reconnectFailedText
    | _ => false

/-- `sckCltPool_putConnet` returned because of one of its two checks. -/
def Pool.refused (p : Pool) : Bool := p.ops.any fun op => match op with
  | .log _ text => text = haveExistText || text = validBoundsText
  | _ => false

/-- The pooled descriptors and these others are distinct and open. -/
structure Owned (p : Pool) (fds : List Int) : Prop where
  fdLen : p.hdl.fdArray.cells.length = p.hdl.bounds.toNat
  statusLen : p.hdl.statusArray.cells.length = p.hdl.bounds.toNat
  nonneg : 0 ≤ p.hdl.valid
  le : p.hdl.valid ≤ p.hdl.bounds
  nodup : (p.pooled ++ fds).Nodup
  isOpen : ∀ fd ∈ p.pooled ++ fds, 0 ≤ fd ∧ fd ∈ opened p.ops

/-! ### What keeps it -/

/-- An operation that closes nothing and logs none of the failures counted above. -/
def PoolOp.quiet : PoolOp → Bool
  | .close _ => false
  | .log _ text => text ≠ reconnectFailedText && text ≠ haveExistText && text ≠ validBoundsText
  | _ => true

def Pool.acts (p : Pool) (ops : List PoolOp) : Pool := { p with ops := p.ops ++ ops }

theorem mem_foldl_opens {ops : List PoolOp} (hq : ∀ op ∈ ops, op.quiet = true) {fds : List Int} {fd : Int}
    (h : fd ∈ fds) : fd ∈ ops.foldl PoolOp.opens fds := by
  induction ops generalizing fds with
  | nil => exact h
  | cons op ops ih =>
    refine ih (fun x hx => hq x (by simp [hx])) ?_
    have hop := hq op (by simp)
    cases op <;> simp_all [PoolOp.opens, PoolOp.quiet]

theorem failed_quiet {p : Pool} {ops : List PoolOp} (hq : ∀ op ∈ ops, op.quiet = true) :
    (p.acts ops).failed = p.failed := by
  have : ops.countP (fun op => match op with
      | .log _ text => decide (text = reconnectFailedText)
      | _ => false) = 0 := by
    refine List.countP_eq_zero.mpr fun op hop => ?_
    have := hq op hop
    cases op <;> simp_all [PoolOp.quiet]
  simp only [Pool.failed, Pool.acts, List.countP_append, this, Nat.add_zero]

theorem refused_quiet {p : Pool} {ops : List PoolOp} (hq : ∀ op ∈ ops, op.quiet = true) :
    (p.acts ops).refused = p.refused := by
  have : ops.any (fun op => match op with
      | .log _ text => decide (text = haveExistText) || decide (text = validBoundsText)
      | _ => false) = false := by
    refine List.any_eq_false.mpr fun op hop => ?_
    have := hq op hop
    cases op <;> simp_all [PoolOp.quiet]
  simp only [Pool.refused, Pool.acts, List.any_append, this, Bool.or_false]

theorem pooled_putPush {p : Pool} (hlen : p.hdl.fdArray.cells.length = p.hdl.bounds.toNat) (h0 : 0 ≤ p.hdl.valid)
    (hlt : p.hdl.valid < p.hdl.bounds) (fd : Int) : (putPush fd p).pooled = p.pooled ++ [fd] := by
  have hv : (p.hdl.valid + 1).toNat = p.hdl.valid.toNat + 1 := by omega
  show (p.hdl.fdArray.cells.set p.hdl.valid.toNat fd).take (p.hdl.valid + 1).toNat = _
  rw [hv, List.take_succ_eq_append_getElem (by rw [List.length_set]; omega), List.getElem_set_self,
    List.take_set_of_le (Nat.le_refl _)]
  rfl

namespace Owned
variable {p : Pool} {fd : Int} {fds : List Int}

theorem perm {fds' : List Int} (h : Owned p fds) (hp : fds.Perm fds') : Owned p fds' where
  fdLen := h.fdLen
  statusLen := h.statusLen
  nonneg := h.nonneg
  le := h.le
  nodup := (hp.append_left p.pooled).nodup_iff.mp h.nodup
  isOpen x hx := h.isOpen x ((hp.append_left p.pooled).mem_iff.mpr hx)

theorem quiet {ops : List PoolOp} (h : Owned p fds) (hq : ∀ op ∈ ops, op.quiet = true) : Owned (p.acts ops) fds where
  fdLen := h.fdLen
  statusLen := h.statusLen
  nonneg := h.nonneg
  le := h.le
  nodup := h.nodup
  isOpen x hx := by
    obtain ⟨h1, h2⟩ := h.isOpen x hx
    exact ⟨h1, by rw [Pool.acts, opened_append]; exact mem_foldl_opens hq h2⟩

theorem log (h : Owned p fds) (ret : Int) (text : String) : Owned (p.acts [.log ret text]) fds where
  fdLen := h.fdLen
  statusLen := h.statusLen
  nonneg := h.nonneg
  le := h.le
  nodup := h.nodup
  isOpen x hx := by
    rw [Pool.acts, opened_append]
    exact h.isOpen x hx

/-- The closed descriptor is nobody's any more. -/
theorem close (h : Owned p (fd :: fds)) : Owned (p.acts [.close fd]) fds where
  fdLen := h.fdLen
  statusLen := h.statusLen
  nonneg := h.nonneg
  le := h.le
  nodup := h.nodup.sublist ((List.sublist_cons_self fd fds).append_left p.pooled)
  isOpen x hx := by
    obtain ⟨h1, h2⟩ := h.isOpen x (by
      rcases List.mem_append.mp hx with hx | hx
      · exact List.mem_append_left _ hx
      · exact List.mem_append_right _ (List.mem_cons_of_mem _ hx))
    have hne : x ≠ fd := by
      rintro rfl
      have hperm : (p.pooled ++ x :: fds).Perm (x :: (p.pooled ++ fds)) := List.perm_middle
      have := hperm.nodup_iff.mp h.nodup
      exact (List.nodup_cons.mp this).1 hx
    refine ⟨h1, ?_⟩
    rw [Pool.acts, opened_append]
    simp [PoolOp.opens, h2, hne]

/-- A new socket is nobody's yet. -/
theorem socket {n : Nat} (h : Owned p fds) (hn : (n : Int) ∉ opened p.ops) :
    Owned (p.acts [.socket n]) ((n : Int) :: fds) where
  fdLen := h.fdLen
  statusLen := h.statusLen
  nonneg := h.nonneg
  le := h.le
  nodup := by
    have hperm : (p.pooled ++ (n : Int) :: fds).Perm (n :: (p.pooled ++ fds)) := List.perm_middle
    refine hperm.nodup_iff.mpr ?_
    exact List.nodup_cons.mpr ⟨fun hx => hn (h.isOpen _ hx).2, h.nodup⟩
  isOpen x hx := by
    rw [Pool.acts, opened_append]
    rcases List.mem_cons.mp (List.perm_middle.mem_iff.mp hx) with rfl | hx
    · simp [PoolOp.opens]
    · obtain ⟨h1, h2⟩ := h.isOpen x hx
      exact ⟨h1, by simp [PoolOp.opens, h2]⟩

theorem pooled_push (h : Owned p fds) (hlt : p.hdl.valid < p.hdl.bounds) (fd : Int) :
    (putPush fd p).pooled = p.pooled ++ [fd] := pooled_putPush h.fdLen h.nonneg hlt fd

/-- The array takes the descriptor over. -/
theorem push (h : Owned p (fd :: fds)) (hlt : p.hdl.valid < p.hdl.bounds) : Owned (putPush fd p) fds where
  fdLen := by
    show (p.hdl.fdArray.cells.set _ _).length = _
    rw [List.length_set]
    exact h.fdLen
  statusLen := by
    show (p.hdl.statusArray.cells.set _ _).length = _
    rw [List.length_set]
    exact h.statusLen
  nonneg := by
    show 0 ≤ p.hdl.valid + 1
    have := h.nonneg
    omega
  le := hlt
  nodup := by
    rw [h.pooled_push hlt, List.append_assoc]
    exact h.nodup
  isOpen x hx := by
    rw [h.pooled_push hlt, List.append_assoc] at hx
    obtain ⟨h1, h2⟩ := h.isOpen x hx
    refine ⟨h1, ?_⟩
    show x ∈ opened ((p.ops ++ [.storeFd _]) ++ [.storeStatus _])
    rw [opened_append, opened_append]
    exact h2

/-- The top of the array goes to a client. -/
theorem pop (h : Owned p fds) (hv : 0 < p.hdl.valid) :
    Owned (p.setValid (p.hdl.valid - 1)) (p.fdAt (p.hdl.valid - 1) :: fds) := by
  have hlen := h.fdLen
  have hle := h.le
  have hn : p.hdl.valid.toNat = (p.hdl.valid - 1).toNat + 1 := by omega
  have hlt : (p.hdl.valid - 1).toNat < p.hdl.fdArray.cells.length := by omega
  have hpooled : p.pooled = (p.setValid (p.hdl.valid - 1)).pooled ++ [p.fdAt (p.hdl.valid - 1)] := by
    show p.hdl.fdArray.cells.take p.hdl.valid.toNat = p.hdl.fdArray.cells.take (p.hdl.valid - 1).toNat ++ [_]
    rw [hn, List.take_succ_eq_append_getElem hlt, Pool.fdAt, List.getD_eq_getElem?_getD,
      List.getElem?_eq_getElem hlt]
    rfl
  refine ⟨hlen, h.statusLen, ?_, ?_, ?_, ?_⟩
  · show 0 ≤ p.hdl.valid - 1
    omega
  · show p.hdl.valid - 1 ≤ p.hdl.bounds
    omega
  · have := h.nodup
    rw [hpooled, List.append_assoc] at this
    exact this
  · intro x hx
    refine h.isOpen x ?_
    rw [hpooled, List.append_assoc]
    exact hx

end Owned

/-! ### What a call does -/

/-- What `sckClient_connect` does: a new socket and 0, or a failure. -/
inductive ConnectEnd (p : Pool) : Int × Option Int × Pool → Prop
  | connected (n : Nat) : ConnectEnd p (0, some (n : Int), p.acts [.socket n])
  | failed (ret connfd ops) : ret ≠ 0 → (∀ op ∈ ops, op.quiet = true) → ConnectEnd p (ret, connfd, p.acts ops)

theorem connect_end (port connecttime : Int) {o : ConnectOutcome} (ho : o.ok = true) (p : Pool) :
    ConnectEnd p (sckClientConnect port connecttime o p) := by
  unfold sckClientConnect
  split
  · exact .failed _ _ [_] (by decide) (by simp [PoolOp.quiet]; decide)
  cases o with
  | noSocket errno =>
    simpa [Pool.acts] using ConnectEnd.failed (p := p) errno none [] (by simpa [ConnectOutcome.ok] using ho) (by simp)
  | socket sockfd ret errno =>
    dsimp only
    split
    · split
      · exact .failed _ _ [.socket sockfd] (by decide) (by simp [PoolOp.quiet])
      · have := ConnectEnd.failed (p := p) ret (some (sockfd : Int))
          [.socket sockfd, .log ret "func connect_timeout() err"] (by omega) (by simp [PoolOp.quiet]; decide)
        simpa [Pool.acts, Pool.act] using this
    · by_cases h0 : ret = 0
      · subst h0
        exact .connected sockfd
      · exact .failed _ _ [.socket sockfd] h0 (by simp [PoolOp.quiet])

/-- What `sckCltPool_getConnet` does on a pool whose statuses are all good. -/
inductive GetEnd (p : Pool) : Int × Option Int × Pool → Prop
  | taken (ops) : 0 < p.hdl.valid → (∀ op ∈ ops, op.quiet = true) →
      GetEnd p (0, some (p.fdAt (p.hdl.valid - 1)), (p.setValid (p.hdl.valid - 1)).acts ops)
  | empty (ops) : p.hdl.valid = 0 → (∀ op ∈ ops, op.quiet = true) →
      GetEnd p (sckErrPoolGetConnValidIsZero, none, p.acts ops)

theorem getRepair_good {p : Pool} (h : p.statusAt (p.hdl.valid - 1) ≠ 0) (o : ConnectOutcome) :
    getRepair o p = (0, p) := if_neg h

theorem get_end {p : Pool} (ht : p.hdl.terminated ≠ 1) (h0 : 0 ≤ p.hdl.valid)
    (hs : 0 < p.hdl.valid → p.statusAt (p.hdl.valid - 1) ≠ 0) (o : ConnectOutcome) :
    GetEnd p (sckCltPoolGetConnet true true o p) := by
  have htest : getTest (p.act (.lock true)) = .ok (p.hdl.valid = 0) := if_neg ht
  unfold sckCltPoolGetConnet
  rw [if_neg (by simp)]
  dsimp only
  rw [htest]
  by_cases hv : p.hdl.valid = 0
  · have := GetEnd.empty (p := p) [.lock true, .usleep p.hdl.sTimeout, .log sckErrPoolGetConnValidIsZero
      "func sckCltPool_getConnet() Sck_Err_Pool_GetConn_ValidIsZero err", .unlock true] hv
      (by simp [PoolOp.quiet]; decide)
    simpa [getRetest, getEnd, Pool.act, Pool.acts, hv, show sckErrPoolGetConnValidIsZero ≠ 0 by decide] using this
  · have := GetEnd.taken (p := p) [.lock true, .unlock true] (by omega) (by simp [PoolOp.quiet])
    have hrep : getRepair o (p.act (.lock true)) = (0, p.act (.lock true)) :=
      getRepair_good (p := p.act (.lock true)) (hs (by omega)) o
    simp only [hv, decide_false, hrep]
    simpa [getEnd, Pool.act, Pool.acts, Pool.setValid, Pool.fdAt] using this

/-- What `sckCltPool_putConnet` does with a descriptor that passes its checks. -/
inductive PutEnd (fd : Int) (p : Pool) : Int × Pool → Prop
  | back (ops ops') : (∀ op ∈ ops, op.quiet = true) → (∀ op ∈ ops', op.quiet = true) →
      PutEnd fd p (0, (putPush fd (p.acts ops)).acts ops')
  | replaced (n : Nat) : PutEnd fd p
      (0, (putPush n (((p.acts [.lock true]).acts [.close fd]).acts [.socket n])).acts [.unlock true])
  | lost (ret ops) : ret ≠ 0 → (∀ op ∈ ops, op.quiet = true) → PutEnd fd p (ret,
      ((((p.acts [.lock true]).acts [.close fd]).acts ops).acts [.log ret reconnectFailedText]).acts [.unlock true])

theorem put_end {p : Pool} {fd : Int} (ht : p.hdl.terminated = 0) (hfd : 0 ≤ fd)
    (hnew : ∀ i < p.hdl.valid.toNat, p.fdAt i ≠ fd) (hlt : p.hdl.valid < p.hdl.bounds) (validFlag : Int)
    {o : ConnectOutcome} (ho : o.ok = true) : PutEnd fd p (sckCltPoolPutConnet true fd validFlag o p) := by
  have hparam : ¬ (true = false ∨ fd < 0) := by
    rintro (h | h)
    · cases h
    · omega
  have ht1 : ¬ (p.act (.lock true)).hdl.terminated = 1 := by
    show ¬ p.hdl.terminated = 1
    omega
  have hscan : ¬ ((List.range (p.act (.lock true)).hdl.valid.toNat).any
      fun i => (p.act (.lock true)).fdAt i = fd) = true := by
    simp only [List.any_eq_true, List.mem_range, decide_eq_true_eq, not_exists, not_and]
    exact hnew
  have hcap : ¬ (p.act (.lock true)).hdl.valid ≥ (p.act (.lock true)).hdl.bounds := by
    show ¬ p.hdl.valid ≥ p.hdl.bounds
    omega
  unfold sckCltPoolPutConnet
  rw [if_neg hparam]
  dsimp only
  rw [if_neg ht1, if_neg hscan, if_neg hcap]
  -- the connection is good and goes back as it is, or it is replaced
  by_cases hf : validFlag = 1
  · rw [if_pos hf]
    exact .back [.lock true] [.unlock true] (by simp [PoolOp.quiet]) (by simp [PoolOp.quiet])
  · rw [if_neg hf]
    have hclose : sckClientCloseconn fd (p.act (.lock true)) = (0, (p.acts [.lock true]).acts [.close fd]) :=
      if_pos hfd
    unfold putRepair
    rw [hclose]
    simp only [ne_eq, not_true, if_false]
    generalize hp1 : (p.acts [.lock true]).acts [.close fd] = p1
    have hcon := connect_end p1.hdl.serverport p1.hdl.connecttime ho p1
    generalize sckClientConnect p1.hdl.serverport p1.hdl.connecttime o p1 = r at hcon ⊢
    cases hcon with
    | connected n =>
      subst hp1
      simp only [not_true, if_false, Option.getD_some]
      exact .replaced n
    | failed ret connfd ops hret hq =>
      subst hp1
      simp only [hret, not_false_eq_true, if_true]
      exact .lost ret ops hret hq

/-! ### The invariant holds -/

structure PoolInv (s : PoolSys) : Prop where
  alive : s.pool.hdl.terminated = 0
  owned : Owned s.pool (s.held.map Prod.snd)
  status : ∀ x ∈ s.pool.hdl.statusArray.cells, x = 1
  account : s.pool.hdl.valid + s.held.length + s.pool.failed = s.pool.hdl.bounds
  accepted : s.pool.refused = false

theorem PoolInv.up {s : PoolSys} (h : PoolInv s) : s.pool.hdl.terminated ≠ 1 := by
  rw [h.alive]
  decide

theorem PoolInv.statusAt {s : PoolSys} (h : PoolInv s) (hv : 0 < s.pool.hdl.valid) :
    s.pool.statusAt (s.pool.hdl.valid - 1) ≠ 0 := by
  have hlen := h.owned.statusLen
  have hle := h.owned.le
  have hlt : (s.pool.hdl.valid - 1).toNat < s.pool.hdl.statusArray.cells.length := by omega
  rw [Pool.statusAt, List.getD_eq_getElem?_getD, List.getElem?_eq_getElem hlt, Option.getD_some,
    h.status _ (List.getElem_mem hlt)]
  decide

theorem mem_set_one {l : List Int} (h : ∀ x ∈ l, x = 1) (i : Nat) : ∀ x ∈ l.set i 1, x = 1 := by
  intro x hx
  rcases List.mem_or_eq_of_mem_set hx with hx | hx
  · exact h x hx
  · exact hx

theorem failed_push (p : Pool) (fd : Int) : (putPush fd p).failed = p.failed := by
  simp [Pool.failed, putPush, Pool.storeFd, Pool.storeStatus, Pool.setValid, List.countP_append]

theorem refused_push (p : Pool) (fd : Int) : (putPush fd p).refused = p.refused := by
  simp [Pool.refused, putPush, Pool.storeFd, Pool.storeStatus, Pool.setValid]

theorem failed_close (p : Pool) (fd : Int) : (p.acts [.close fd]).failed = p.failed := by
  simp [Pool.failed, Pool.acts, List.countP_append]

theorem refused_close (p : Pool) (fd : Int) : (p.acts [.close fd]).refused = p.refused := by
  simp [Pool.refused, Pool.acts]

theorem fresh_socket {a b : List PoolOp} {n : Nat} (h : fresh (a ++ .socket n :: b) = true) :
    (n : Int) ∉ opened a := by
  rw [fresh_append] at h
  simp [freshFrom] at h
  exact h.2.1

theorem PoolInv.get {s : PoolSys} (h : PoolInv s) (client : Nat) {r : Int × Option Int × Pool}
    (hr : GetEnd s.pool r) :
    PoolInv { pool := r.2.2, held := (r.2.1.map fun fd => (client, fd)).toList ++ s.held } := by
  have hacc := h.account
  cases hr with
  | taken ops hv hq =>
    refine ⟨h.alive, (h.owned.pop hv).quiet hq, h.status, ?_, (refused_quiet hq).trans h.accepted⟩
    rw [failed_quiet hq]
    show s.pool.hdl.valid - 1 + ((s.held.length + 1 : Nat) : Int) + s.pool.failed = s.pool.hdl.bounds
    omega
  | empty ops hv hq =>
    refine ⟨h.alive, h.owned.quiet hq, h.status, ?_, (refused_quiet hq).trans h.accepted⟩
    rw [failed_quiet hq]
    exact hacc

/-- A held descriptor is in none of the slots in use, and there is room for it. -/
theorem PoolInv.held {s : PoolSys} (h : PoolInv s) {client : Nat} {fd : Int} (hm : (client, fd) ∈ s.held) :
    0 ≤ fd ∧ (∀ i < s.pool.hdl.valid.toNat, s.pool.fdAt i ≠ fd) ∧ s.pool.hdl.valid < s.pool.hdl.bounds := by
  have hmem : fd ∈ s.held.map Prod.snd := List.mem_map_of_mem hm
  have hlen := h.owned.fdLen
  have hle := h.owned.le
  refine ⟨(h.owned.isOpen fd (List.mem_append_right _ hmem)).1, fun i hi he => ?_, ?_⟩
  · have hlt : i < s.pool.hdl.fdArray.cells.length := by omega
    have hpooled : fd ∈ s.pool.pooled := by
      rw [← he, Pool.fdAt, Int.toNat_natCast, List.getD_eq_getElem?_getD, List.getElem?_eq_getElem hlt]
      exact List.mem_take_iff_getElem.mpr ⟨i, by omega, rfl⟩
    exact (List.nodup_append.mp h.owned.nodup).2.2 fd hpooled fd hmem rfl
  · have hacc := h.account
    have := List.length_pos_of_mem hm
    omega

theorem PoolInv.put {s : PoolSys} (h : PoolInv s) {client : Nat} {fd : Int} (hm : (client, fd) ∈ s.held)
    {r : Int × Pool} (hr : PutEnd fd s.pool r) (hf : fresh r.2.ops = true) :
    PoolInv { pool := r.2, held := s.held.erase (client, fd) } := by
  obtain ⟨hnn, hnew, hlt⟩ := h.held hm
  have hacc := h.account
  have hlen : (s.held.erase (client, fd)).length + 1 = s.held.length := by
    rw [List.length_erase_of_mem hm]
    have := List.length_pos_of_mem hm
    omega
  have howned : Owned s.pool (fd :: (s.held.erase (client, fd)).map Prod.snd) :=
    h.owned.perm ((List.perm_cons_erase hm).map Prod.snd)
  cases hr with
  | back ops ops' hq hq' =>
    refine ⟨h.alive, ((howned.quiet hq).push hlt).quiet hq', mem_set_one h.status _, ?_, ?_⟩
    · rw [failed_quiet hq', failed_push, failed_quiet hq]
      show s.pool.hdl.valid + 1 + ((s.held.erase (client, fd)).length : Int) + s.pool.failed = s.pool.hdl.bounds
      omega
    · rw [refused_quiet hq', refused_push, refused_quiet hq]
      exact h.accepted
  | replaced n =>
    have hq : ∀ op ∈ [PoolOp.lock true], op.quiet = true := by simp [PoolOp.quiet]
    have hq' : ∀ op ∈ [PoolOp.unlock true], op.quiet = true := by simp [PoolOp.quiet]
    have hqs : ∀ op ∈ [PoolOp.socket n], op.quiet = true := by simp [PoolOp.quiet]
    -- `socket` returns a number that is not open; the closed one may come back
    have hn : (n : Int) ∉ opened ((s.pool.acts [.lock true]).acts [.close fd]).ops := by
      refine fresh_socket (b := [.storeFd s.pool.hdl.valid, .storeStatus s.pool.hdl.valid, .unlock true])
        (.trans (congrArg fresh ?_) hf)
      simp [Pool.acts, putPush, Pool.storeFd, Pool.storeStatus, Pool.setValid]
    refine ⟨h.alive, (((howned.quiet hq).close.socket hn).push hlt).quiet hq', mem_set_one h.status _, ?_, ?_⟩
    · rw [failed_quiet hq', failed_push, failed_quiet hqs, failed_close, failed_quiet hq]
      show s.pool.hdl.valid + 1 + ((s.held.erase (client, fd)).length : Int) + s.pool.failed = s.pool.hdl.bounds
      omega
    · rw [refused_quiet hq', refused_push, refused_quiet hqs, refused_close, refused_quiet hq]
      exact h.accepted
  | lost ret ops hret hq =>
    have hql : ∀ op ∈ [PoolOp.lock true], op.quiet = true := by simp [PoolOp.quiet]
    have hqu : ∀ op ∈ [PoolOp.unlock true], op.quiet = true := by simp [PoolOp.quiet]
    have howned1 := (howned.quiet hql).close.quiet hq
    generalize hp1 : ((s.pool.acts [.lock true]).acts [.close fd]).acts ops = p1 at howned1 hf ⊢
    have hhdl : p1.hdl = s.pool.hdl := by rw [← hp1]; rfl
    have hfailed : p1.failed = s.pool.failed := by
      rw [← hp1, failed_quiet hq, failed_close, failed_quiet hql]
    have hrefused : p1.refused = false := by
      rw [← hp1, refused_quiet hq, refused_close, refused_quiet hql]
      exact h.accepted
    -- the message in the log is what counts the failure
    have hfailed1 : ((p1.acts [.log ret reconnectFailedText]).acts [.unlock true]).failed = s.pool.failed + 1 := by
      rw [failed_quiet hqu, ← hfailed]
      simp [Pool.failed, Pool.acts, List.countP_append]
    refine ⟨?_, (howned1.log ret _).quiet hqu, ?_, ?_, ?_⟩
    · show p1.hdl.terminated = 0
      rw [hhdl]
      exact h.alive
    · show ∀ x ∈ p1.hdl.statusArray.cells, x = 1
      rw [hhdl]
      exact h.status
    · rw [hfailed1]
      show p1.hdl.valid + ((s.held.erase (client, fd)).length : Int) + ((s.pool.failed + 1 : Nat) : Int) = p1.hdl.bounds
      rw [hhdl]
      omega
    · rw [refused_quiet hqu, ← hrefused]
      have h1 : reconnectFailedText ≠ haveExistText := by decide
      have h2 : reconnectFailedText ≠ validBoundsText := by decide
      simp [Pool.refused, Pool.acts, h1, h2]

theorem PoolInv.step {s s' : PoolSys} {a : ClientAct} (h : PoolInv s) (hs : s.step a = some s') : PoolInv s' := by
  cases a with
  | get client o =>
    have hr := get_end h.up h.owned.nonneg h.statusAt o
    simp only [PoolSys.step] at hs
    split at hs
    · cases hs
      exact h.get client hr
    · cases hs
  | put client fd validFlag o =>
    simp only [PoolSys.step] at hs
    split at hs
    case isTrue hc =>
      cases hs
      obtain ⟨hnn, hnew, hlt⟩ := h.held hc.2.2
      exact h.put hc.2.2 (put_end h.alive hnn hnew hlt validFlag hc.1) hc.2.1
    case isFalse => cases hs

/-! ### It holds at the start -/

/-- The connect loop after `i` connections. -/
structure InitInv (i : Nat) (p : Pool) : Prop where
  owned : Owned p []
  valid : p.hdl.valid = i
  status : ∀ j < i, p.hdl.statusArray.cells[j]? = some 1
  failed : p.failed = 0
  accepted : p.refused = false

/-- One successful round of the connect loop. -/
def initPush (i : Nat) (fd : Int) (p : Pool) : Pool :=
  let p := (p.storeFd i fd).storeStatus i 1
  { p with hdl := { p.hdl with valid := p.hdl.valid + 1, nvalid := p.hdl.nvalid - 1 } }

theorem initConnect_succ {outs : Nat → ConnectOutcome} {i : Nat} (ho : (outs i).ok = true) (n : Nat) (ret : Int)
    (p : Pool) :
    (∃ m : Nat, initConnect outs (n + 1) i ret p = initConnect outs n (i + 1) 0 (initPush i m (p.acts [.socket m]))) ∨
    ∃ ops, (initConnect outs (n + 1) i ret p).2.ops = p.ops ++ ops ∧
      (initConnect outs (n + 1) i ret p).2.hdl.valid = p.hdl.valid ∧
      (initConnect outs (n + 1) i ret p).2.hdl.bounds = p.hdl.bounds := by
  have hcon := connect_end p.hdl.serverport p.hdl.connecttime ho p
  rw [initConnect]
  generalize sckClientConnect p.hdl.serverport p.hdl.connecttime (outs i) p = r at hcon ⊢
  cases hcon with
  | connected m => exact .inl ⟨m, rfl⟩
  | failed ret connfd ops hret hq =>
    simp only [ne_eq, hret, not_false_eq_true, if_true]
    cases connfd with
    | none => exact .inr ⟨_, List.append_assoc _ _ _, rfl, rfl⟩
    | some fd => exact .inr ⟨_, (List.append_assoc _ _ _).trans (List.append_assoc _ _ _), rfl, rfl⟩

theorem initConnect_frame {outs : Nat → ConnectOutcome} (ho : ∀ i, (outs i).ok = true) (n : Nat) :
    ∀ (i : Nat) (ret : Int) (p : Pool), (∃ ops, (initConnect outs n i ret p).2.ops = p.ops ++ ops) ∧
      (initConnect outs n i ret p).2.hdl.bounds = p.hdl.bounds := by
  induction n with
  | zero => exact fun i ret p => ⟨⟨[], (List.append_nil _).symm⟩, rfl⟩
  | succ n ih =>
    intro i ret p
    rcases initConnect_succ (ho i) n ret p with ⟨m, h⟩ | ⟨ops, h1, _, h3⟩
    · rw [h]
      obtain ⟨⟨ops, h1⟩, h2⟩ := ih (i + 1) 0 (initPush i m (p.acts [.socket m]))
      refine ⟨⟨[.socket m, .storeFd i, .storeStatus i] ++ ops, h1.trans ?_⟩, h2⟩
      simp [initPush, Pool.acts, Pool.storeFd, Pool.storeStatus]
    · exact ⟨⟨ops, h1⟩, h3⟩

theorem InitInv.push {i : Nat} {p : Pool} (h : InitInv i p) (hlt : (i : Int) < p.hdl.bounds) {m : Nat}
    (hm : (m : Int) ∉ opened p.ops) : InitInv (i + 1) (initPush i m (p.acts [.socket m])) := by
  have hv := h.valid
  have hlen := h.owned.statusLen
  have hq : ∀ op ∈ [PoolOp.socket m], op.quiet = true := by simp [PoolOp.quiet]
  have howned : Owned (putPush m (p.acts [.socket m])) [] := (h.owned.socket hm).push (hv ▸ hlt)
  have hpush : putPush m (p.acts [.socket m]) = { (initPush i m (p.acts [.socket m])) with
      hdl := { (initPush i m (p.acts [.socket m])).hdl with nvalid := p.hdl.nvalid } } := by
    simp [putPush, initPush, Pool.acts, Pool.storeFd, Pool.storeStatus, Pool.setValid, hv]
  rw [hpush] at howned
  refine ⟨⟨howned.fdLen, howned.statusLen, howned.nonneg, howned.le, howned.nodup, howned.isOpen⟩, ?_, ?_, ?_, ?_⟩
  · show p.hdl.valid + 1 = ((i + 1 : Nat) : Int)
    omega
  · intro j hj
    show (p.hdl.statusArray.cells.set ((i : Int).toNat) 1)[j]? = some 1
    rw [Int.toNat_natCast]
    by_cases hji : j = i
    · subst hji
      exact List.getElem?_set_self (by omega)
    · rw [List.getElem?_set_ne (Ne.symm hji)]
      exact h.status j (by omega)
  · have := (failed_push (p.acts [.socket m]) m).trans (failed_quiet hq)
    rw [hpush] at this
    exact this.trans h.failed
  · have := (refused_push (p.acts [.socket m]) m).trans (refused_quiet hq)
    rw [hpush] at this
    exact this.trans h.accepted

/-- The connect loop ends with too few connections, or with all of them. -/
theorem initConnect_end {outs : Nat → ConnectOutcome} (ho : ∀ i, (outs i).ok = true) (n : Nat) :
    ∀ (i : Nat) (ret : Int) (p : Pool), (i + n : Nat) = p.hdl.bounds → InitInv i p →
      fresh (initConnect outs n i ret p).2.ops = true →
      (initConnect outs n i ret p).2.hdl.valid < (initConnect outs n i ret p).2.hdl.bounds ∨
        InitInv (i + n) (initConnect outs n i ret p).2 := by
  induction n with
  | zero => exact fun i ret p _ hi _ => .inr hi
  | succ n ih =>
    intro i ret p hb hi hf
    have hv := hi.valid
    rcases initConnect_succ (ho i) n ret p with ⟨m, h⟩ | ⟨ops, h1, h2, h3⟩
    · rw [h] at hf ⊢
      have hm : (m : Int) ∉ opened p.ops := by
        obtain ⟨⟨ops, hops⟩, -⟩ := initConnect_frame ho n (i + 1) 0 (initPush i m (p.acts [.socket m]))
        refine fresh_socket (b := [.storeFd i, .storeStatus i] ++ ops) ?_
        rw [hops] at hf
        simpa [initPush, Pool.acts, Pool.storeFd, Pool.storeStatus] using hf
      have hb1 : ((i + 1 + n : Nat) : Int) = (initPush i m (p.acts [.socket m])).hdl.bounds := by
        show ((i + 1 + n : Nat) : Int) = p.hdl.bounds
        omega
      have := ih (i + 1) 0 _ hb1 (hi.push (by omega) hm) hf
      rwa [show i + 1 + n = i + (n + 1) by omega] at this
    · exact .inl (by omega)

/-- A full pool nobody has taken from yet. -/
theorem InitInv.poolInv {p : Pool} (h : InitInv p.hdl.bounds.toNat p) (ht : p.hdl.terminated = 0) :
    PoolInv { pool := p.acts [.unlock true] } := by
  have hq : ∀ op ∈ [PoolOp.unlock true], op.quiet = true := by simp [PoolOp.quiet]
  have hv := h.valid
  have h0 := h.owned.nonneg
  have hle := h.owned.le
  refine ⟨ht, h.owned.quiet hq, fun x hx => ?_, ?_, (refused_quiet hq).trans h.accepted⟩
  · obtain ⟨j, hj, rfl⟩ := List.mem_iff_getElem.mp hx
    have hlen := h.owned.statusLen
    have hj' : j < p.hdl.statusArray.cells.length := hj
    have := h.status j (by omega)
    rw [List.getElem?_eq_getElem hj'] at this
    exact Option.some.inj this
  · rw [failed_quiet hq, h.failed]
    show p.hdl.valid + ((0 : Nat) : Int) + ((0 : Nat) : Int) = p.hdl.bounds
    omega

theorem mallocInts_some {bounds : Int} {addr : Option Nat} {cells : Nat → Int} {a : IntArray}
    (h : mallocInts bounds addr cells = some a) : 0 ≤ bounds ∧ a.cells.length = bounds.toNat := by
  unfold mallocInts at h
  split at h
  · cases h
  · obtain ⟨n, -, rfl⟩ := Option.map_eq_some_iff.mp h
    exact ⟨by omega, by simp⟩

theorem initEnd_zero {ret : Int} {p : Pool} {hdl : SockePoolHandle} {ops : List PoolOp}
    (h : initEnd ret p = (0, some hdl, ops)) : ret = 0 ∧ hdl = p.hdl ∧ ops = p.ops ++ [.unlock true] := by
  unfold initEnd at h
  by_cases hret : ret = 0
  · simp only [hret, ne_eq, not_true, if_false, Prod.mk.injEq, Option.some.injEq] at h
    exact ⟨hret, h.2.1.symm, h.2.2.symm⟩
  · simp [hret] at h

/-- Before the loop nothing is pooled, and after it everything is. -/
theorem sckCltPoolInit_zero {mem : InitMem} {param : SCKClitPoolParam} {outs : Nat → ConnectOutcome}
    {hdl : SockePoolHandle} {ops : List PoolOp} (h : sckCltPoolInit mem param outs = (0, some hdl, ops)) :
    ∃ p0 p1, InitInv 0 p0 ∧ p0.hdl.bounds = param.bounds ∧ initConnect outs param.bounds.toNat 0 0 p0 = (0, p1) ∧
      p1.hdl.bounds ≤ p1.hdl.valid ∧ hdl = p1.hdl ∧ ops = p1.ops ++ [.unlock true] := by
  unfold sckCltPoolInit at h
  cases hmem : mem.hdl with
  | none => simp [hmem] at h
  | some raw =>
    simp only [hmem] at h
    split at h
    · exact absurd (initEnd_zero h).1 (by decide)
    rename_i fdArray hfd
    split at h
    · exact absurd (initEnd_zero h).1 (by decide)
    rename_i statusArray hst
    obtain ⟨hb, hfdlen⟩ := mallocInts_some hfd
    obtain ⟨-, hstlen⟩ := mallocInts_some hst
    generalize hp0 : Pool.mk _ _ = p0 at h
    have hinv : InitInv 0 p0 := by
      rw [← hp0]
      refine ⟨⟨hfdlen, hstlen, Int.le_refl 0, hb, ?_, ?_⟩, rfl, ?_, rfl, rfl⟩ <;> simp [Pool.pooled]
    generalize hloop : initConnect outs param.bounds.toNat 0 0 p0 = r at h
    obtain ⟨ret, p1⟩ := r
    dsimp only at h
    split at h
    case isTrue => exact absurd (initEnd_zero h).1 (by decide)
    case isFalse hfull =>
      obtain ⟨rfl, hhdl, hops⟩ := initEnd_zero h
      exact ⟨p0, p1, hinv, by rw [← hp0], hloop, Int.not_lt.mp hfull, hhdl, hops⟩

theorem sckCltPoolInit_inv {mem : InitMem} {param : SCKClitPoolParam} {outs : Nat → ConnectOutcome} {p : Pool}
    (h : sckCltPoolInit mem param outs = (0, some p.hdl, p.ops)) (ho : ∀ i, (outs i).ok = true)
    (hf : fresh p.ops = true) (ht : p.hdl.terminated = 0) : PoolInv { pool := p } := by
  obtain ⟨p0, p1, hinv, hbounds, hloop, hfull, hhdl, hops⟩ := sckCltPoolInit_zero h
  have hnonneg := hinv.owned.nonneg
  have hle := hinv.owned.le
  have hend := initConnect_end ho param.bounds.toNat 0 0 p0 (by omega) hinv
  have hframe := (initConnect_frame ho param.bounds.toNat 0 0 p0).2
  rw [hloop] at hend hframe
  obtain rfl : p = p1.acts [.unlock true] := by
    cases p
    cases hhdl
    cases hops
    rfl
  have hf1 : fresh p1.ops = true := by
    have := fresh_append p1.ops [.unlock true]
    simp only [Pool.acts] at hf
    rw [this, Bool.and_eq_true] at hf
    exact hf.1
  rcases hend hf1 with h | h
  · -- the loop broke off, which the test after it would have found
    exact absurd h (Int.not_lt.mpr hfull)
  · refine InitInv.poolInv ?_ ht
    dsimp only at h hframe
    rwa [Nat.zero_add, ← hbounds, ← hframe] at h

/-- From a successful `sckCltPool_init` on, and whatever calls the clients make,
the pool and its clients partition the connections: nothing is pooled or held
twice, and nothing is lost but to a failed reconnect. -/
theorem pool_invariant {s : PoolSys} (h : s.Reachable) :
    0 ≤ s.pool.hdl.valid ∧ s.pool.hdl.valid ≤ s.pool.hdl.bounds ∧
    (s.pool.pooled ++ s.held.map Prod.snd).Nodup ∧
    s.pool.hdl.valid + s.held.length + s.pool.failed = s.pool.hdl.bounds ∧
    s.pool.refused = false := by
  obtain ⟨s0, ⟨mem, param, outs, hinit, -, ht, ho, hf, hheld⟩, hreach⟩ := h
  have h0 : PoolInv s0 := by
    have := sckCltPoolInit_inv hinit ho hf ht
    rwa [← hheld] at this
  have hinv : PoolInv s := hreach.invariant (fun s a s' hs hstep => hs.step hstep) h0
  exact ⟨hinv.owned.nonneg, hinv.owned.le, hinv.owned.nodup, hinv.account, hinv.accepted⟩

/-- A pool of one connection. -/
def PoolSys.single : PoolSys where
  pool := {
    hdl := { fdArray := ⟨1, [3]⟩, statusArray := ⟨2, [1]⟩, valid := 1, bounds := 1, serverport := 80, sTimeout := 1 }
    ops := [.lock true, .socket 3, .storeFd 0, .storeStatus 0, .unlock true] }

theorem PoolSys.single_start : PoolSys.single.Start :=
  ⟨⟨some {}, some 1, fun _ => 0, some 2, fun _ => 0⟩, ⟨80, 1, 0⟩, fun i => .socket (3 + i) 0 0,
    by decide +kernel, by decide, rfl, fun _ => rfl, by decide, rfl⟩

/-- Client 7 has taken the connection. -/
theorem pool_invariant_taken : ∃ s : PoolSys, s.held = [(7, 3)] ∧
    0 ≤ s.pool.hdl.valid ∧ s.pool.hdl.valid ≤ s.pool.hdl.bounds ∧
    (s.pool.pooled ++ s.held.map Prod.snd).Nodup ∧
    s.pool.hdl.valid + s.held.length + s.pool.failed = s.pool.hdl.bounds ∧
    s.pool.refused = false := by
  obtain ⟨s, hr, hs⟩ := Lts.Reach.of_run PoolSys.step PoolSys.single (fun s => s.held = [(7, 3)])
    [.get 7 (.noSocket 24)] (by decide +kernel)
  exact ⟨s, of_decide_eq_true hs, pool_invariant ⟨_, PoolSys.single_start, hr⟩⟩

end CSocket
