import CSocket.TcpSocket.Receive
/-!
# Three loops that read exactly

`Readn` of `wrap.c` beside `readn` of `socketutil.c` and `TcpSocket::readn`. For a count that
is an `int` the three are one program (`readn_eq`, `TcpSocket.readn_int`), and what it returns
depends on the bytes that the reads deliver and how they end (`delivers`), not on where the
blocks are cut (`readn_val`).
-/
namespace CSocket

/-! ## The code -/

namespace Wrap

/-- `Readn`'s loop: `nleft` of the `n` bytes to go, `buf` already stored. -/
def readnLoop (n : Nat) : List ReadOutcome → Nat → List UInt8 → Conn → Outcome Conn (Int × List UInt8)
  | rs, nleft, buf, c =>
    if nleft = 0 then .ret (toSsize ((n : Int) - nleft), buf) { c with reads := rs }
    else match rs with
      | [] => .stalled { c with reads := [] }
      | .error e :: rs =>
        -- `nread = 0`, and the round goes on
        if e = EINTR then readnLoop n rs (nleft - 0) buf { c with errno := e }
        else .ret (-1, buf) { c with errno := e, reads := rs }
      | .ready k :: rs =>
        let got := c.input.take (min (k + 1) nleft)
        -- `break`
        if got.length = 0 then .ret (toSsize ((n : Int) - nleft), buf) { c with reads := rs }
        else readnLoop n rs (nleft - got.length) (buf ++ got) { c with input := c.input.drop got.length }

def readn (n : Nat) : Prog Conn (Int × List UInt8) := fun c => readnLoop n c.reads n [] c

/-! ## One program -/

theorem readnLoop_eq (n : Nat) (rs : List ReadOutcome) : ∀ (nleft : Nat) (buf : List UInt8) (c : Conn),
    readnLoop n rs nleft buf c = CSocket.readnLoop n rs nleft buf c := by
  induction rs with
  | nil =>
    intro nleft buf c
    unfold readnLoop CSocket.readnLoop
    split
    case isTrue hzero => rw [hzero, Nat.cast_zero, Int.sub_zero]
    case isFalse => rfl
  | cons o rs ih =>
    intro nleft buf c
    unfold readnLoop CSocket.readnLoop
    split
    case isTrue hzero => rw [hzero, Nat.cast_zero, Int.sub_zero]
    case isFalse =>
      cases o with
      | error e =>
        dsimp only
        split
        · exact ih nleft buf _
        · rfl
      | ready k =>
        dsimp only
        split
        · rfl
        · exact ih _ _ _

theorem readn_eq (n : Nat) : readn n = CSocket.readn n := funext fun c => readnLoop_eq n c.reads n [] c

end Wrap

/-! ## What the reads deliver -/

/-- How a stream ends. -/
inductive StreamEnd where
  | eof
  | hardError
  deriving DecidableEq

/-- The bytes that the reads of the schedule deliver, and the end that they run into. -/
def delivers : List ReadOutcome → List UInt8 → List UInt8 × Option StreamEnd
  | [], _ => ([], none)
  | .error e :: rs, input => if e = EINTR then delivers rs input else ([], some .hardError)
  | .ready k :: rs, input =>
    if input = [] then ([], some .eof)
    else (input.take (k + 1) ++ (delivers rs (input.drop (k + 1))).1, (delivers rs (input.drop (k + 1))).2)

theorem delivers_eintr (rs : List ReadOutcome) (input : List UInt8) :
    delivers (.error EINTR :: rs) input = delivers rs input := if_pos rfl

theorem delivers_hard {e : Int} (he : e ≠ EINTR) (rs : List ReadOutcome) (input : List UInt8) :
    delivers (.error e :: rs) input = ([], some .hardError) := if_neg he

theorem delivers_ready {k : Nat} {input : List UInt8} (hne : input ≠ []) (rs : List ReadOutcome) :
    delivers (.ready k :: rs) input =
      (input.take (k + 1) ++ (delivers rs (input.drop (k + 1))).1, (delivers rs (input.drop (k + 1))).2) := if_neg hne

theorem delivers_eof (k : Nat) (rs : List ReadOutcome) : delivers (.ready k :: rs) [] = ([], some .eof) := if_pos rfl

/-- What a reader of `count` bytes gets to see: enough bytes, or fewer and the end. -/
inductive Delivery where
  | enough (bytes : List UInt8)
  | short (bytes : List UInt8) (how : StreamEnd)
  /-- The schedule ends first. -/
  | pending
  deriving DecidableEq

def Delivery.of (count : Nat) (bytes : List UInt8) (how : Option StreamEnd) : Delivery :=
  if count ≤ bytes.length then .enough (bytes.take count)
  else match how with
    | some how => .short bytes how
    | none => .pending

/-- The delivery on a connection. -/
def Conn.delivery (c : Conn) (count : Nat) : Delivery :=
  Delivery.of count (delivers c.reads c.input).1 (delivers c.reads c.input).2

/-- The result that belongs to a delivery, and the bytes stored. -/
def Delivery.result (count : Nat) : Delivery → Option (Int × List UInt8)
  | .enough bytes => some (count, bytes)
  | .short bytes .eof => some (bytes.length, bytes)
  | .short bytes .hardError => some (-1, bytes)
  | .pending => none

theorem Delivery.of_enough {count : Nat} {buf : List UInt8} (h : buf.length = count) (more : List UInt8)
    (how : Option StreamEnd) : Delivery.of count (buf ++ more) how = .enough buf := by
  unfold Delivery.of
  rw [if_pos (by rw [List.length_append]; omega), List.take_left' h]

theorem Delivery.of_short {count : Nat} {bytes : List UInt8} (h : bytes.length < count) (how : StreamEnd) :
    Delivery.of count bytes (some how) = .short bytes how := if_neg (Nat.not_le.mpr h)

theorem Delivery.of_pending {count : Nat} {bytes : List UInt8} (h : bytes.length < count) :
    Delivery.of count bytes none = .pending := if_neg (Nat.not_le.mpr h)

/-- A round of the loop leaves the delivery as it is: the `read()` takes the block, or as much
of it as the count needs. -/
theorem Delivery.of_ready {count nleft : Nat} {buf input : List UInt8} (hsum : nleft + buf.length = count) (k : Nat)
    (rs : List ReadOutcome) (hne : input ≠ []) {got : List UInt8} (hgot : got = input.take (min (k + 1) nleft)) :
    Delivery.of count (buf ++ (delivers (.ready k :: rs) input).1) (delivers (.ready k :: rs) input).2 =
      Delivery.of count (buf ++ got ++ (delivers rs (input.drop got.length)).1)
        (delivers rs (input.drop got.length)).2 := by
  have hblock : got = (input.take (k + 1)).take nleft := by rw [hgot, List.take_take, Nat.min_comm]
  rw [delivers_ready hne]
  by_cases hall : (input.take (k + 1)).length ≤ nleft
  · have hwhole : got = input.take (k + 1) := hblock.trans (List.take_of_length_le hall)
    have hdrop : input.drop got.length = input.drop (k + 1) := by
      rw [hwhole, List.length_take]
      exact List.drop_eq_drop_min.symm
    rw [hdrop, hwhole, List.append_assoc]
  · -- the count is reached inside the block
    have hlen : got.length = nleft := by
      rw [hblock, List.length_take, Nat.min_eq_left (Nat.le_of_not_le hall)]
    have hreach : (buf ++ got).length = count := by
      rw [List.length_append, hlen]
      omega
    have hcut : input.take (k + 1) = got ++ (input.take (k + 1)).drop nleft := by
      rw [hblock, List.take_append_drop]
    rw [hcut, List.append_assoc, ← List.append_assoc buf, Delivery.of_enough hreach, Delivery.of_enough hreach]

section
variable {count : Nat}

/-- The loop returns what belongs to the bytes stored and the bytes to come. -/
theorem readnLoop_val (hcount : count < 2 ^ 31) (rs : List ReadOutcome) : ∀ (nleft : Nat) (buf : List UInt8) (c : Conn),
    nleft + buf.length = count → (readnLoop count rs nleft buf c).val =
      (Delivery.of count (buf ++ (delivers rs c.input).1) (delivers rs c.input).2).result count := by
  have hpart {nleft : Nat} {buf : List UInt8} (hsum : nleft + buf.length = count) :
      toSsize ((count : Int) - nleft) = buf.length := by
    rw [toSsize_eq (by omega) (by omega)]
    omega
  have hdone {buf : List UInt8} (hsum : 0 + buf.length = count) (more : List UInt8) (how : Option StreamEnd) :
      some (toSsize (count : Nat), buf) = (Delivery.of count (buf ++ more) how).result count := by
    rw [Delivery.of_enough ((Nat.zero_add _).symm.trans hsum), toSsize_eq (by omega) (by omega)]
    rfl
  induction rs with
  | nil =>
    intro nleft buf c hsum
    unfold readnLoop
    split
    case isTrue hzero =>
      subst hzero
      exact hdone hsum _ _
    case isFalse hne =>
      have hlt : (buf ++ []).length < count := by
        rw [List.append_nil]
        omega
      rw [delivers, Delivery.of_pending hlt]
      rfl
  | cons o rs ih =>
    intro nleft buf c hsum
    unfold readnLoop
    split
    case isTrue hzero =>
      subst hzero
      exact hdone hsum _ _
    case isFalse hne =>
      have hlt : buf.length < count := by omega
      cases o with
      | error e =>
        dsimp only
        by_cases he : e = EINTR
        · rw [if_pos he, he, delivers_eintr]
          exact ih nleft buf _ hsum
        · rw [if_neg he, delivers_hard he, List.append_nil, Delivery.of_short hlt]
          rfl
      | ready k =>
        dsimp only
        by_cases hnil : c.input = []
        · rw [hnil, List.take_nil, List.length_nil, if_pos rfl, delivers_eof, List.append_nil, Delivery.of_short hlt,
            Outcome.val_ret, hpart hsum]
          rfl
        · have hpos : 0 < c.input.length := List.length_pos_of_ne_nil hnil
          have hlen : (c.input.take (min (k + 1) nleft)).length = min (min (k + 1) nleft) c.input.length :=
            List.length_take
          rw [if_neg (by omega), Delivery.of_ready hsum k rs hnil rfl]
          refine ih _ _ { c with input := _ } ?_
          rw [List.length_append]
          omega

theorem readn_val (hcount : count < 2 ^ 31) (c : Conn) : (readn count c).val = (c.delivery count).result count :=
  readnLoop_val hcount c.reads count [] c (by simp)

end

namespace TcpSocket

theorem narrow_ret {ret : Int} (h1 : -2 ^ 31 ≤ ret) (h2 : ret < 2 ^ 31) (buf : List UInt8) (c : Conn) :
    narrow (.ret (ret, buf) c) = .ret (ret, buf) c := by
  rw [narrow, toInt_eq h1 h2]

/-- A count that is an `int` is the same number as a `size_t`, and so are the results. -/
theorem readn_int {count : Nat} (hcount : count < 2 ^ 31) (c : Conn) : readn count c = CSocket.readn count c := by
  have hsize : toSize (count : Int) = count := (toSize_eq (by omega) (by omega)).trans (Int.toNat_natCast count)
  rw [readn, readnLoop_eq (toInt_eq (by omega) (by omega)), hsize]
  show narrow (CSocket.readn count c) = CSocket.readn count c
  have hend := readn_end count c
  generalize CSocket.readn count c = r at hend
  cases hend with
  | full rs e =>
    rw [toSsize_eq (by omega) (by omega)]
    exact narrow_ret (by omega) (by omega) _ _
  | eof rs e hlt =>
    rw [toSsize_eq (by omega) (by omega)]
    exact narrow_ret (by omega) (by omega) _ _
  | failed k rs e => exact narrow_ret (by decide) (by decide) _ _
  | stalled => rfl

end TcpSocket

/-! ## The theorem -/

/-- For every count that is an `int` and every schedule: the three return the same value, store
the same bytes and leave the same connection; the result is the one that belongs to what the
reads deliver; and two schedules with the same delivery give the same result. -/
theorem readn_agree {count : Nat} (hcount : count < 2 ^ 31) (c : Conn) :
    Wrap.readn count c = readn count c ∧ TcpSocket.readn count c = readn count c ∧
    (readn count c).val = (c.delivery count).result count ∧
    ∀ c', c'.delivery count = c.delivery count → (readn count c').val = (readn count c).val ∧
      (Wrap.readn count c').val = (Wrap.readn count c).val ∧
      (TcpSocket.readn count c').val = (TcpSocket.readn count c).val := by
  refine ⟨by rw [Wrap.readn_eq], TcpSocket.readn_int hcount c, readn_val hcount c, fun c' hsame => ?_⟩
  have hval : (readn count c').val = (readn count c).val := by rw [readn_val hcount, readn_val hcount, hsame]
  refine ⟨hval, by rwa [Wrap.readn_eq], ?_⟩
  rwa [TcpSocket.readn_int hcount, TcpSocket.readn_int hcount]

/-- Three bytes in one block, and one by one with an interrupted read and more to come. -/
theorem readn_agree_three : ∃ c c' : Conn, c ≠ c' ∧ (Wrap.readn 3 c).val = some (3, [7, 8, 9]) ∧
    (TcpSocket.readn 3 c').val = some (3, [7, 8, 9]) := by
  let c : Conn := { input := [7, 8, 9], reads := [.ready 2] }
  let c' : Conn := { input := [7, 8, 9, 1], reads := [.ready 0, .error EINTR, .ready 0, .ready 5] }
  have hsame : c'.delivery 3 = c.delivery 3 := by decide +kernel
  have hresult : (c.delivery 3).result 3 = some (3, [7, 8, 9]) := by decide +kernel
  obtain ⟨hwrap, htcp, hval, hall⟩ := readn_agree (show 3 < 2 ^ 31 by decide) c
  refine ⟨c, c', by decide, ?_, ?_⟩
  · rw [hwrap, hval, hresult]
  · calc (TcpSocket.readn 3 c').val = (TcpSocket.readn 3 c).val := (hall c' hsame).2.2
      _ = (readn 3 c).val := congrArg Outcome.val htcp
      _ = some (3, [7, 8, 9]) := hval.trans hresult

end CSocket
