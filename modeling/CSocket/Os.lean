import CSocket.Lib.Prog
import Mathlib.Algebra.Ring.Int.Defs
import Mathlib.Algebra.Ring.Nat
import Mathlib.Data.List.Infix
/-!
# What the socket code sees of the operating system

One end of a connection (`Conn`): `errno`, the bytes the peer sent that were not
read yet (end of stream follows them), the bytes `write()` accepted so far, and
the outcomes of the system calls still to come. The code's C integers are `Int`s
with the conversions written out: `toInt`, `toUnsigned`, `toSize`, `toSsize`.

Memory is a ghost trace (`MemOp`) of what the code does with the blocks it
allocates. The bytes themselves are passed by value.
-/
namespace CSocket

/-! ## C integers -/

/-- Conversion to a 32-bit `int`. -/
def toInt (x : Int) : Int := x.bmod (2 ^ 32)

/-- Conversion to a 32-bit `unsigned int`. -/
def toUnsigned (x : Int) : Nat := (x % 2 ^ 32).toNat

/-- Conversion to a 64-bit `size_t`. -/
def toSize (x : Int) : Nat := (x % 2 ^ 64).toNat

/-- Conversion to a 64-bit `ssize_t`. -/
def toSsize (x : Int) : Int := x.bmod (2 ^ 64)

def PTRDIFF_MAX : Nat := 2 ^ 63 - 1

/-- The four bytes of an `int` in network order, as they lie in memory after
`htonl`. -/
def htonl (x : Int) : List UInt8 :=
  let u := toUnsigned x
  [UInt8.ofNat (u / 2 ^ 24), UInt8.ofNat (u / 2 ^ 16), UInt8.ofNat (u / 2 ^ 8), UInt8.ofNat u]

/-- The number that bytes in network order stand for. -/
def ntohl (b : List UInt8) : Nat := b.foldl (fun a x => a * 256 + x.toNat) 0

theorem toInt_eq {x : Int} (h1 : -2 ^ 31 ≤ x) (h2 : x < 2 ^ 31) : toInt x = x := by
  unfold toInt
  exact Int.bmod_eq_of_le (by omega) (by omega)

theorem toSize_eq {x : Int} (h1 : 0 ≤ x) (h2 : x < 2 ^ 63) : toSize x = x.toNat := by
  unfold toSize
  rw [Int.emod_eq_of_lt h1 (by omega)]

theorem toSsize_eq {x : Int} (h1 : 0 ≤ x) (h2 : x < 2 ^ 63) : toSsize x = x := by
  unfold toSsize
  exact Int.bmod_eq_of_le (by omega) (by omega)

/-! ## Byte order -/

theorem length_htonl (x : Int) : (htonl x).length = 4 := rfl

theorem ntohl_lt (b : List UInt8) : ntohl b < 256 ^ b.length := by
  unfold ntohl
  induction b using List.reverseRecOn with
  | nil => simp
  | append_singleton b x ih =>
    have := x.toNat_lt
    simp only [List.foldl_append, List.foldl_cons, List.foldl_nil, List.length_append, List.length_singleton,
      Nat.pow_succ]
    omega

theorem ntohl_htonl {x : Int} (h1 : 0 ≤ x) (h2 : x < 2 ^ 32) : ntohl (htonl x) = x.toNat := by
  have hu : toUnsigned x = x.toNat := by
    unfold toUnsigned
    rw [Int.emod_eq_of_lt h1 h2]
  simp only [ntohl, htonl, hu, List.foldl_cons, List.foldl_nil, UInt8.toNat_ofNat']
  omega

/-- The `toupper` of the C locale. -/
def toupper (b : UInt8) : UInt8 := if 97 ≤ b ∧ b ≤ 122 then b - 32 else b

/-! ## One end of a connection -/

/-- What a `read()` on the connection does. -/
inductive ReadOutcome where
  /-- At most `k + 1` bytes are there to take; at end of stream it returns 0. -/
  | ready (k : Nat)
  | error (e : Int)
  deriving DecidableEq

/-- What a `write()` on the connection does. -/
inductive WriteOutcome where
  /-- There is room for `k` bytes. -/
  | accepts (k : Nat)
  | error (e : Int)
  deriving DecidableEq

/-- What a `select()` on the one descriptor does. -/
inductive SelectOutcome where
  | ready
  | timeout
  | error (e : Int)
  deriving DecidableEq

/-- What the code does with a block it allocated. -/
inductive MemOp where
  | malloc (blk size : Nat)
  /-- `memcpy` of `count` bytes to the block's offset `off`. -/
  | memcpy (blk off count : Nat)
  /-- `readn` is asked to store `count` bytes into the block. -/
  | readn (blk count : Nat)
  /-- `writen` is asked to send `count` bytes of the block. -/
  | writen (blk count : Nat)
  /-- One byte is stored at index `i`. -/
  | store (blk : Nat) (i : Int)
  | free (blk : Nat)
  deriving DecidableEq

structure Conn where
  errno : Int := 0
  selects : List SelectOutcome := []
  reads : List ReadOutcome := []
  input : List UInt8 := []
  writes : List WriteOutcome := []
  output : List UInt8 := []
  /-- Whether the next requests are granted; after the last of them every
  request is. -/
  mallocs : List Bool := []
  /-- The number of blocks obtained so far names the next one. -/
  blocks : Nat := 0
  trace : List MemOp := []
  deriving DecidableEq

def EINTR : Int := 4
def ETIMEDOUT : Int := 110

/-- Records a memory operation. -/
def note (op : MemOp) : Prog Conn Unit := .update fun c => { c with trace := c.trace ++ [op] }

/-- The next request, of `size` bytes, is granted. A request above `PTRDIFF_MAX`
never is. -/
def Conn.Grants (c : Conn) (size : Nat) : Prop := c.mallocs.headD true = true ∧ size ≤ PTRDIFF_MAX

instance (c : Conn) (size : Nat) : Decidable (c.Grants size) := inferInstanceAs (Decidable (_ ∧ _))

/-- The environment after a granted request. -/
def Conn.alloc (c : Conn) (size : Nat) : Conn :=
  { c with mallocs := c.mallocs.tail, blocks := c.blocks + 1, trace := c.trace ++ [.malloc c.blocks size] }

/-- `malloc`: a block or `NULL`. -/
def malloc (size : Nat) : Prog Conn (Option Nat) := fun c =>
  if c.Grants size then .ret (some c.blocks) (c.alloc size)
  else .ret none { c with mallocs := c.mallocs.tail }

theorem malloc_some {c : Conn} {size : Nat} (h : c.Grants size) :
    malloc size c = .ret (some c.blocks) (c.alloc size) := if_pos h

theorem malloc_none {c : Conn} {size : Nat} (h : ¬ c.Grants size) :
    malloc size c = .ret none { c with mallocs := c.mallocs.tail } := if_neg h

end CSocket
