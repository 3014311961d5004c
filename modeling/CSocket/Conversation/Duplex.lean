import CSocket.Conversation.Ends
/-!
# Conversations

Both ends of a connection send and receive, in any order and with any of the functions,
until a call fails for good or does not return. What one end is handed is always the
first of what the other end was told it had sent.
-/
namespace CSocket

inductive Op where
  | send (e : End) (timeout : Int) (m : List UInt8)
  | rev (e : End) (timeout : Int)

/-- The message is one that all the sends admit. -/
def Op.Admits : Op → Prop
  | send _ _ m => 1 ≤ m.length ∧ m.length ≤ 2 ^ 31 - 5
  | rev _ _ => True

/-- `Session ops c sent got c'`: one end makes these calls up to some point. `sent` are
the messages whose send returned 0, `got` is what the receives that returned 0 handed
over. After a failure that is no timeout no call follows. -/
inductive Session : List Op → Conn → List (List UInt8) → List Delivered → Conn → Prop
  | stop (ops c) : Session ops c [] [] c
  | sent {e t m ops c c1 c' sent got} : e.send t m c = .ret 0 c1 → Session ops c1 sent got c' →
      Session (Op.send e t m :: ops) c (m :: sent) got c'
  | notSent {e t m ops c c1 c' sent got} : e.send t m c = .ret sckErrTimeOut c1 → Session ops c1 sent got c' →
      Session (Op.send e t m :: ops) c sent got c'
  | sendFails {e t m ops c c1 r} : e.send t m c = .ret r c1 → r ≠ 0 → r ≠ sckErrTimeOut →
      Session (Op.send e t m :: ops) c [] [] c1
  | sending {e t m ops c c1} : e.send t m c = .stalled c1 → Session (Op.send e t m :: ops) c [] [] c1
  | got {e t d ops c c1 c' sent got} : e.rev t c = .ret (0, some d) c1 → Session ops c1 sent got c' →
      Session (Op.rev e t :: ops) c sent (d :: got) c'
  | notGot {e t o ops c c1 c' sent got} : e.rev t c = .ret (sckErrTimeOut, o) c1 → Session ops c1 sent got c' →
      Session (Op.rev e t :: ops) c sent got c'
  | revFails {e t o ops c c1 r} : e.rev t c = .ret (r, o) c1 → r ≠ 0 → r ≠ sckErrTimeOut →
      Session (Op.rev e t :: ops) c [] [] c1
  | receiving {e t ops c c1} : e.rev t c = .stalled c1 → Session (Op.rev e t :: ops) c [] [] c1

section
variable {ops : List Op} {c c' : Conn} {sent : List (List UInt8)} {got : List Delivered}

theorem max_le {n : Nat} (h : n ≤ 2 ^ 31 - 5) : n ≤ sckFraming.max := Nat.le_trans h (by decide)

theorem stream_cut {m : List UInt8} {k : Nat} (hm : m.length ≤ 2 ^ 31 - 5) (hk : k < (frame m).length) :
    sckFraming.Stream [] ((frame m).take k) :=
  .cut (max_le hm) (List.take_prefix _ _) (Nat.lt_of_le_of_lt (List.length_take_le _ _) hk)

/-- What an end writes over a session are the frames of its accepted messages, and at most
one frame cut short. -/
theorem Session.output (h : Session ops c sent got c') (hops : ∀ op ∈ ops, op.Admits) :
    ∃ s, c'.output = c.output ++ s ∧ sckFraming.Stream sent s := by
  have hnothing : sckFraming.Stream [] [] := stream_cut (m := []) (k := 0) (by simp) (by decide)
  have hrev : ∀ {e t c r}, End.rev e t c = r → r.env.output = c.output := by
    rintro e t c r rfl
    exact e.rev_keeps t c
  induction h with
  | stop ops c => exact ⟨[], (List.append_nil _).symm, hnothing⟩
  | @sent e t m ops c c1 c' sent got hr _ ih =>
    obtain ⟨h1, hm⟩ : 1 ≤ m.length ∧ m.length ≤ 2 ^ 31 - 5 := hops _ List.mem_cons_self
    obtain ⟨s, hs, hstream⟩ := ih fun op hop => hops op (List.mem_cons_of_mem _ hop)
    have hsend := (send_synced e t h1 hm c).wrote
    rw [hr] at hsend
    cases hsend with
    | sent _ hout => exact ⟨frame m ++ s, by rw [hs, hout, List.append_assoc], .cons (max_le hm) hstream⟩
    | failed _ _ _ h0 => exact absurd rfl h0
  | @notSent e t m ops c c1 c' sent got hr _ ih =>
    obtain ⟨h1, hm⟩ : 1 ≤ m.length ∧ m.length ≤ 2 ^ 31 - 5 := hops _ List.mem_cons_self
    obtain ⟨s, hs, hstream⟩ := ih fun op hop => hops op (List.mem_cons_of_mem _ hop)
    have hsend := (send_synced e t h1 hm c).wrote
    rw [hr] at hsend
    cases hsend with
    | failed _ _ k _ _ hzero hout =>
      -- a call that timed out has written nothing
      rw [hzero rfl, List.take_zero, List.append_nil] at hout
      exact ⟨s, by rw [hs, hout], hstream⟩
  | @sendFails e t m ops c c1 r hr h0 =>
    obtain ⟨h1, hm⟩ : 1 ≤ m.length ∧ m.length ≤ 2 ^ 31 - 5 := hops _ List.mem_cons_self
    have hsend := (send_synced e t h1 hm c).wrote
    rw [hr] at hsend
    cases hsend with
    | sent => exact absurd rfl h0
    | failed _ _ k _ hk _ hout => exact ⟨_, hout, stream_cut hm hk⟩
  | @sending e t m ops c c1 hr =>
    obtain ⟨h1, hm⟩ : 1 ≤ m.length ∧ m.length ≤ 2 ^ 31 - 5 := hops _ List.mem_cons_self
    have hsend := (send_synced e t h1 hm c).wrote
    rw [hr] at hsend
    cases hsend with
    | stalled _ k hk hout => exact ⟨_, hout, stream_cut hm hk⟩
  | @got e t d ops c c1 c' sent got hr _ ih =>
    obtain ⟨s, hs, hstream⟩ := ih fun op hop => hops op (List.mem_cons_of_mem _ hop)
    exact ⟨s, hs.trans (congrArg (· ++ s) (hrev hr)), hstream⟩
  | @notGot e t o ops c c1 c' sent got hr _ ih =>
    obtain ⟨s, hs, hstream⟩ := ih fun op hop => hops op (List.mem_cons_of_mem _ hop)
    exact ⟨s, hs.trans (congrArg (· ++ s) (hrev hr)), hstream⟩
  | revFails hr => exact ⟨[], (hrev hr).trans (List.append_nil _).symm, hnothing⟩
  | receiving hr => exact ⟨[], (hrev hr).trans (List.append_nil _).symm, hnothing⟩

/-- What an end is handed over a session are the first payloads of the stream it reads. -/
theorem Session.received (h : Session ops c sent got c') (hops : ∀ op ∈ ops, op.Admits) {ms : List (List UInt8)}
    (hs : sckFraming.Stream ms c.input) : got <+: ms.map delivered := by
  have hsend : ∀ {e t m c r}, Op.Admits (.send e t m) → End.send e t m c = r → r.env.input = c.input := by
    rintro e t m c r ⟨h1, hm⟩ rfl
    exact (send_synced e t h1 hm c).input
  induction h generalizing ms with
  | stop => exact List.nil_prefix
  | sendFails => exact List.nil_prefix
  | sending => exact List.nil_prefix
  | revFails => exact List.nil_prefix
  | receiving => exact List.nil_prefix
  | sent hr _ ih =>
    have hin := hsend (hops _ List.mem_cons_self) hr
    exact ih (fun op hop => hops op (List.mem_cons_of_mem _ hop)) (hin.symm ▸ hs)
  | notSent hr _ ih =>
    have hin := hsend (hops _ List.mem_cons_self) hr
    exact ih (fun op hop => hops op (List.mem_cons_of_mem _ hop)) (hin.symm ▸ hs)
  | @got e t d ops c c1 c' sent got hr _ ih =>
    have hrev := rev_synced e t (.of_stream hs)
    rw [hr] at hrev
    cases hrev with
    | delivered m _ hnext _ =>
      cases ms with
      | nil =>
        rw [hs.next_nil] at hnext
        cases hnext
      | cons m' ms =>
        obtain ⟨rest, hnext', hs'⟩ := hs.next_cons
        rw [hnext] at hnext'
        cases hnext'
        rw [List.map_cons]
        exact List.cons_prefix_cons.mpr ⟨rfl, ih (fun op hop => hops op (List.mem_cons_of_mem _ hop)) hs'⟩
  | @notGot e t o ops c c1 c' sent got hr _ ih =>
    have hrev := rev_synced e t (.of_stream hs)
    rw [hr] at hrev
    refine ih (fun op hop => hops op (List.mem_cons_of_mem _ hop)) ?_
    cases hrev with
    | timeout _ hin _ => exact hin.symm ▸ hs
    | failed _ _ _ ht _ => exact absurd rfl ht

end

end CSocket
