import Mathlib.Data.List.Nodup
import Mathlib.Tactic.TypeStar
/-!
# Descriptors and an epoll set

The open descriptors of a process and the registrations of one epoll instance.
A `Kernel` carries what the system guarantees: a registration is of an open
descriptor, and no descriptor is registered twice. `epoll_ctl` fails by its
contract and for no other reason; `close` takes the descriptor out of the set.
-/
namespace Epoll

def EPOLLIN : Nat := 0x001
def EPOLLOUT : Nat := 0x004

/-- `data` is what the caller left with the registration. -/
structure Reg (δ : Type) where
  fd : Nat
  data : δ
  events : Nat
  deriving DecidableEq

inductive Op where
  | add
  | mod
  | del
  deriving DecidableEq

structure Kernel (δ : Type) where
  opened : List Nat
  set : List (Reg δ)
  isOpen : ∀ r ∈ set, r.fd ∈ opened
  nodup : (set.map Reg.fd).Nodup

namespace Kernel
variable {δ : Type}

def empty : Kernel δ where
  opened := []
  set := []
  isOpen _ h := absurd h List.not_mem_nil
  nodup := List.nodup_nil

/-- A new descriptor, as `socket` and `accept` return it. -/
def openFd (k : Kernel δ) (fd : Nat) : Kernel δ :=
  { k with opened := fd :: k.opened, isOpen := fun r h => List.mem_cons_of_mem fd (k.isOpen r h) }

/-- Take the registration of `fd` out. -/
def drop (k : Kernel δ) (fd : Nat) : Kernel δ :=
  { k with
    set := k.set.filter fun r => r.fd ≠ fd
    isOpen := fun r h => k.isOpen r (List.mem_of_mem_filter h)
    nodup := k.nodup.sublist (List.filter_sublist.map Reg.fd) }

def close (k : Kernel δ) (fd : Nat) : Kernel δ where
  opened := k.opened.filter fun fd' => fd' ≠ fd
  set := (k.drop fd).set
  isOpen r h := by
    obtain ⟨hr, hne⟩ := List.mem_filter.mp h
    exact List.mem_filter.mpr ⟨k.isOpen r hr, hne⟩
  nodup := (k.drop fd).nodup

/-- `EPOLL_CTL_ADD`: fails on a descriptor that is closed or registered. -/
def add (k : Kernel δ) (r : Reg δ) : Option (Kernel δ) :=
  if h : r.fd ∈ k.opened ∧ r.fd ∉ k.set.map Reg.fd then
    some { k with
      set := r :: k.set
      isOpen := fun r' h' => (List.mem_cons.mp h').elim (fun he => he ▸ h.1) (k.isOpen r')
      nodup := List.nodup_cons.mpr ⟨h.2, k.nodup⟩ }
  else none

theorem map_fd_update (l : List (Reg δ)) (r : Reg δ) :
    (l.map fun r' => if r'.fd = r.fd then r else r').map Reg.fd = l.map Reg.fd := by
  rw [List.map_map]
  apply List.map_congr_left
  intro r' _
  simp only [Function.comp_apply]
  split
  case isTrue h => exact h.symm
  case isFalse => rfl

/-- `EPOLL_CTL_MOD`: fails on a descriptor that is not registered. -/
def mod (k : Kernel δ) (r : Reg δ) : Option (Kernel δ) :=
  if r.fd ∈ k.set.map Reg.fd then
    some { k with
      set := k.set.map fun r' => if r'.fd = r.fd then r else r'
      isOpen := fun r' h => by
        obtain ⟨r0, h0, rfl⟩ := List.mem_map.mp h
        split
        case isTrue he => exact he ▸ k.isOpen r0 h0
        case isFalse => exact k.isOpen r0 h0
      nodup := by
        rw [map_fd_update]
        exact k.nodup }
  else none

/-- `EPOLL_CTL_DEL`: fails on a descriptor that is not registered. -/
def del (k : Kernel δ) (fd : Nat) : Option (Kernel δ) :=
  if fd ∈ k.set.map Reg.fd then some (k.drop fd) else none

/-- `epoll_ctl`, and whether it returned 0. -/
def ctl (k : Kernel δ) (op : Op) (r : Reg δ) : Kernel δ × Bool :=
  match op with
  | .add => ((k.add r).getD k, (k.add r).isSome)
  | .mod => ((k.mod r).getD k, (k.mod r).isSome)
  | .del => ((k.del r.fd).getD k, (k.del r.fd).isSome)

/-- What `epoll_wait` may return: registered descriptors, each at most once. -/
def Reports (k : Kernel δ) (b : List (Reg δ)) : Prop :=
  (∀ e ∈ b, ∃ r ∈ k.set, r.fd = e.fd ∧ r.data = e.data) ∧ (b.map Reg.fd).Nodup

instance [DecidableEq δ] (k : Kernel δ) (b : List (Reg δ)) : Decidable (k.Reports b) := instDecidableAnd

/-! ## Who is registered -/

variable {k : Kernel δ} {r r' : Reg δ} {fd : Nat}

@[simp] theorem mem_drop : r ∈ (k.drop fd).set ↔ r ∈ k.set ∧ r.fd ≠ fd := by
  simp [drop]

@[simp] theorem drop_opened : (k.drop fd).opened = k.opened := rfl

@[simp] theorem mem_close : r ∈ (k.close fd).set ↔ r ∈ k.set ∧ r.fd ≠ fd := by
  simp [close]

@[simp] theorem mem_close_opened {fd' : Nat} : fd' ∈ (k.close fd).opened ↔ fd' ∈ k.opened ∧ fd' ≠ fd := by
  simp [close]

@[simp] theorem openFd_set : (k.openFd fd).set = k.set := rfl

@[simp] theorem mem_openFd_opened {fd' : Nat} : fd' ∈ (k.openFd fd).opened ↔ fd' = fd ∨ fd' ∈ k.opened := by
  simp [openFd]

/-- A registration is determined by its descriptor. -/
theorem eq_of_fd (h : r ∈ k.set) (h' : r' ∈ k.set) (hfd : r.fd = r'.fd) : r = r' :=
  List.inj_on_of_nodup_map k.nodup h h' hfd

theorem not_registered (h : ∀ r' ∈ k.set, r'.fd ≠ fd) : fd ∉ k.set.map Reg.fd := by
  intro hmem
  obtain ⟨r', hr', he⟩ := List.mem_map.mp hmem
  exact h r' hr' he

/-- There is always a descriptor for the next connection. -/
theorem exists_new (k : Kernel δ) : ∃ fd, fd ≠ 0 ∧ fd ∉ k.opened := by
  have hbound (l : List Nat) : ∃ n, ∀ fd ∈ l, fd ≤ n := by
    induction l with
    | nil => exact ⟨0, fun fd h => absurd h List.not_mem_nil⟩
    | cons fd0 l ih =>
      obtain ⟨n, hn⟩ := ih
      refine ⟨max fd0 n, fun fd h => ?_⟩
      rcases List.mem_cons.mp h with rfl | h
      · exact Nat.le_max_left ..
      · exact Nat.le_trans (hn fd h) (Nat.le_max_right ..)
  obtain ⟨n, hn⟩ := hbound k.opened
  exact ⟨n + 1, Nat.succ_ne_zero n, fun h => Nat.not_succ_le_self n (hn _ h)⟩

/-- `epoll_ctl` neither opens nor closes. -/
@[simp] theorem ctl_opened (op : Op) : (k.ctl op r).1.opened = k.opened := by
  cases op with
  | add =>
    unfold ctl add
    dsimp only
    split <;> rfl
  | mod =>
    unfold ctl mod
    dsimp only
    split <;> rfl
  | del =>
    unfold ctl del
    dsimp only
    split <;> rfl

/-- An open descriptor that is not registered can be added. -/
theorem ctl_add (hopen : r.fd ∈ k.opened) (hnew : ∀ r' ∈ k.set, r'.fd ≠ r.fd) :
    (k.ctl .add r).2 = true ∧ (k.ctl .add r).1.opened = k.opened ∧
      ∀ r', r' ∈ (k.ctl .add r).1.set ↔ r' = r ∨ r' ∈ k.set := by
  have hadd : r.fd ∈ k.opened ∧ r.fd ∉ k.set.map Reg.fd := ⟨hopen, not_registered hnew⟩
  simp [ctl, add, hadd]

/-- After a deletion, successful or not, the descriptor is not registered. -/
theorem ctl_del : (k.ctl .del r).1.opened = k.opened ∧
    ∀ r', r' ∈ (k.ctl .del r).1.set ↔ r' ∈ k.set ∧ r'.fd ≠ r.fd := by
  by_cases h : r.fd ∈ k.set.map Reg.fd
  · simp [ctl, del, h]
  · have hne : ∀ r' ∈ k.set, r'.fd ≠ r.fd := fun r' hr' he => h (List.mem_map.mpr ⟨r', hr', he⟩)
    simp only [ctl, del, h, if_false, Option.getD_none, true_and]
    exact fun r' => ⟨fun hr' => ⟨hr', hne r' hr'⟩, And.left⟩

/-- The registration of a descriptor is replaced. -/
theorem ctl_mod (h : ∃ r' ∈ k.set, r'.fd = r.fd) :
    ∀ r', r' ∈ (k.ctl .mod r).1.set ↔ r' = r ∨ r' ∈ k.set ∧ r'.fd ≠ r.fd := by
  have hreg : r.fd ∈ k.set.map Reg.fd := List.mem_map.mpr h
  obtain ⟨r0, h0, hfd⟩ := h
  intro r'
  simp only [ctl, mod, hreg, if_true, Option.getD_some, List.mem_map]
  constructor
  · rintro ⟨r1, h1, rfl⟩
    split
    case isTrue => exact .inl rfl
    case isFalse hne => exact .inr ⟨h1, hne⟩
  · rintro (rfl | ⟨h1, hne⟩)
    · exact ⟨r0, h0, if_pos hfd⟩
    · exact ⟨r', h1, if_neg hne⟩

end Kernel
end Epoll
