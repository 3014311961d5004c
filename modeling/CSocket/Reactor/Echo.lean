import CSocket.Lib.Echo
import CSocket.Reactor.Code
/-!
# What the small reactor echoes

The reactor with the streams of its clients. An entry is free, listens, or has a client
of its own, also when a client has taken the listening entry (`Entries`). So the bytes of
one client never get into the answers of another, and no callback is made through a null
pointer, whatever happened before.
-/
namespace CSocket.Reactor
open Epoll

/-! ## Streams -/

/-- The accounts of the open connections and of the closed ones are a history. -/
structure Echoing where
  loop : Loop
  conns : Nat → Account UInt8 := fun _ => {}
  closed : List (Account UInt8) := []

/-- `taken` is how many bytes a `Write` takes at most. -/
inductive EchoAct where
  | reactor (a : ReactorAct) (taken : Nat)
  | arrive (fd : Nat) (bytes : List UInt8)
  deriving DecidableEq

/-- `ev->buf` up to `ev->buflen`. -/
def XxEvent.data (e : XxEvent) : List UInt8 := e.buf.take e.buflen.toNat

/-- What an entry has read and not sent. -/
def XxEvent.held (e : XxEvent) : List UInt8 := if e.callBack = some .senddata then e.data else []

/-- The callback that the next event makes, and the entry it is made with. -/
def Loop.pending (s : Loop) : Option (CallBack × Nat) :=
  match s.pc with
  | .event e _ =>
    if (s.myevents e.data).events &&& e.events ≠ 0 then (s.myevents e.data).callBack.map fun f => (f, e.data) else none
  | _ => none

namespace Echoing

def modify (s : Echoing) (fd : Nat) (f : Account UInt8 → Account UInt8) : Echoing :=
  { s with conns := fun fd' => if fd' = fd then f (s.conns fd') else s.conns fd' }

/-- What a callback on entry `ev` does to the streams. -/
def streams (s : Echoing) (io : Io) (taken : Nat) : CallBack × Nat → Echoing
  | (.initAccept, _) => match io.accept with
    | none => s
    | some cfd => s.modify cfd fun _ => {}
  | (.readData, ev) =>
    let fd := (s.loop.myevents ev).fd
    match io.read with
    | none => s
    | some [] => { s with closed := s.conns fd :: s.closed }
    | some (b :: bs) => s.modify fd fun a => a.take (b :: bs).length
  | (.senddata, ev) =>
    s.modify (s.loop.myevents ev).fd fun a => a.put id (s.loop.myevents ev).data taken

/-- A `Read` returns the first of what has arrived, and 0 only behind the last. -/
def Delivers (s : Echoing) (io : Io) : Prop :=
  ∀ p ∈ s.loop.pending, p.1 = .readData → ∀ bytes ∈ io.read,
    bytes <+: (s.conns (s.loop.myevents p.2).fd).input ∧
    (bytes = [] → (s.conns (s.loop.myevents p.2).fd).input = [])

instance (s : Echoing) (io : Io) : Decidable (s.Delivers io) :=
  inferInstanceAs (Decidable (∀ p ∈ s.loop.pending, p.1 = .readData → ∀ bytes ∈ io.read,
    bytes <+: (s.conns (s.loop.myevents p.2).fd).input ∧
    (bytes = [] → (s.conns (s.loop.myevents p.2).fd).input = [])))

end Echoing

section
variable (EVENT_SIZE lfd : Nat)

def echoStep (s : Echoing) : EchoAct → Option Echoing
  | .reactor (.wait events) _ => (reactorStep EVENT_SIZE s.loop (.wait events)).map fun loop => { s with loop }
  | .reactor (.handle io) taken =>
    if s.Delivers io then
      (reactorStep EVENT_SIZE s.loop (.handle io)).map fun loop =>
        { s.loop.pending.elim s (s.streams io taken) with loop }
    else none
  | .arrive fd bytes =>
    if fd ∈ s.loop.gepfd.opened ∧ fd ≠ lfd then some (s.modify fd fun a => a.arrive bytes) else none

def echoStart : Echoing where
  loop := listening EVENT_SIZE lfd

end

/-! ## The entries -/

def XxEvent.Client (e : XxEvent) : Prop := e.callBack = some .readData ∨ e.callBack = some .senddata

/-- What the entry at index `ev` is for. -/
inductive Kind (N lfd ev : Nat) (e : XxEvent) : Prop
  | free : e.fd = 0 → e.events = 0 → e.callBack = none → Kind N lfd ev e
  | listening : ev = N → e.fd = lfd → e.callBack = some .initAccept → Kind N lfd ev e
  | client : e.Client → e.fd ≠ lfd → e.fd ≠ 0 → Kind N lfd ev e

structure Entries (N lfd : Nat) (s : Loop) : Prop where
  kind : ∀ ev, Kind N lfd ev (s.myevents ev)
  distinct : ∀ ev ev', (s.myevents ev).Client → (s.myevents ev').Client →
    (s.myevents ev').fd = (s.myevents ev).fd → ev' = ev
  opened : ∀ fd, fd ∈ s.gepfd.opened ↔ fd = lfd ∨ ∃ ev, (s.myevents ev).Client ∧ (s.myevents ev).fd = fd

section
variable {N lfd : Nat} {s s' : Loop} {ev : Nat}

theorem Entries.congr (h : Entries N lfd s) (hm : s'.myevents = s.myevents) (ho : s'.gepfd.opened = s.gepfd.opened) :
    Entries N lfd s' := by
  refine ⟨?_, ?_, ?_⟩
  · rw [hm]
    exact h.kind
  · rw [hm]
    exact h.distinct
  · rw [hm, ho]
    exact h.opened

theorem Entries.client_ne (h : Entries N lfd s) (hc : (s.myevents ev).Client) : (s.myevents ev).fd ≠ lfd := by
  rcases h.kind ev with ⟨-, -, hnone⟩ | ⟨-, -, haccept⟩ | ⟨-, hne, -⟩
  · simp [XxEvent.Client, hnone] at hc
  · simp [XxEvent.Client, haccept] at hc
  · exact hne

theorem Entries.client_ne_zero (h : Entries N lfd s) (hc : (s.myevents ev).Client) : (s.myevents ev).fd ≠ 0 := by
  rcases h.kind ev with ⟨-, -, hnone⟩ | ⟨-, -, haccept⟩ | ⟨-, -, hne⟩
  · simp [XxEvent.Client, hnone] at hc
  · simp [XxEvent.Client, haccept] at hc
  · exact hne

theorem Entries.listening_eq (h : Entries N lfd s) (hcall : (s.myevents ev).callBack = some .initAccept) : ev = N := by
  rcases h.kind ev with ⟨-, -, hnone⟩ | ⟨he, -, -⟩ | ⟨hread | hsend, -, -⟩
  · simp [hnone] at hcall
  · exact he
  · simp [hread] at hcall
  · simp [hsend] at hcall

/-- One entry changes: it is freed, or gets a client, the one it had or a new one. -/
theorem Entries.put (h : Entries N lfd s) {e : XxEvent} (hm : s'.myevents = (s.setEv ev e).myevents)
    (hkind : Kind N lfd ev e)
    (hold : e.Client → (s.myevents ev).Client → e.fd = (s.myevents ev).fd)
    (hnew : e.Client → ¬ (s.myevents ev).Client → e.fd ∉ s.gepfd.opened)
    (hopened : ∀ fd, fd ∈ s'.gepfd.opened ↔
      e.Client ∧ e.fd = fd ∨ fd ∈ s.gepfd.opened ∧ ¬ ((s.myevents ev).Client ∧ (s.myevents ev).fd = fd)) :
    Entries N lfd s' := by
  have hself : s'.myevents ev = e := by simp [hm]
  have hother {ev' : Nat} (hne : ev' ≠ ev) : s'.myevents ev' = s.myevents ev' := by simp [hm, hne]
  have hapart {ev' : Nat} (hne : ev' ≠ ev) (hc : e.Client) (hc' : (s.myevents ev').Client) :
      (s.myevents ev').fd ≠ e.fd := by
    intro he
    by_cases hcl : (s.myevents ev).Client
    · exact hne (h.distinct ev ev' hcl hc' (he.trans (hold hc hcl)))
    · exact hnew hc hcl ((h.opened _).mpr (.inr ⟨ev', hc', he⟩))
  refine ⟨fun ev' => ?_, fun ev1 ev2 h1 h2 he => ?_, fun fd => ?_⟩
  · by_cases hev : ev' = ev
    · rw [hev, hself]
      exact hkind
    · rw [hother hev]
      exact h.kind ev'
  · by_cases hev1 : ev1 = ev
    · rw [hev1, hself] at h1 he
      by_contra hne
      have hev2 : ev2 ≠ ev := fun he2 => hne (he2.trans hev1.symm)
      rw [hother hev2] at h2 he
      exact hapart hev2 h1 h2 he
    · rw [hother hev1] at h1 he
      by_cases hev2 : ev2 = ev
      · rw [hev2, hself] at h2 he
        exact absurd he.symm (hapart hev1 h2 h1)
      · rw [hother hev2] at h2 he
        exact h.distinct ev1 ev2 h1 h2 he
  · rw [hopened]
    constructor
    · rintro (⟨hc, hfd⟩ | ⟨hmem, hnot⟩)
      · exact .inr ⟨ev, by rwa [hself], by rwa [hself]⟩
      · rcases (h.opened fd).mp hmem with hfd | ⟨ev', hc, hfd⟩
        · exact .inl hfd
        · have hne : ev' ≠ ev := by
            rintro rfl
            exact hnot ⟨hc, hfd⟩
          exact .inr ⟨ev', by rwa [hother hne], by rwa [hother hne]⟩
    · rintro (hfd | ⟨ev', hc, hfd⟩)
      · refine .inr ⟨(h.opened fd).mpr (.inl hfd), ?_⟩
        rintro ⟨hc, he⟩
        exact h.client_ne hc (he.trans hfd)
      · by_cases hev : ev' = ev
        · rw [hev, hself] at hc hfd
          exact .inl ⟨hc, hfd⟩
        · rw [hother hev] at hc hfd
          refine .inr ⟨(h.opened fd).mpr (.inr ⟨ev', hc, hfd⟩), ?_⟩
          rintro ⟨hc', he⟩
          exact hev (h.distinct ev ev' hc' hc (hfd.trans he.symm))

/-! ## One event -/

/-- What a callback with entry `ev` does to the entries and the descriptors. -/
inductive Called (N : Nat) (io : Io) (ev : Nat) (s s' : Loop) : CallBack → Prop
  | refused : io.accept = none → s'.myevents = s.myevents → s'.gepfd.opened = s.gepfd.opened →
      Called N io ev s s' .initAccept
  | accepted (cfd i : Nat) (e : XxEvent) : io.accept = some cfd → ((s.myevents i).fd = 0 ∧ i < N ∨ i = N) →
      s'.myevents = (s.setEv i { e with fd := cfd, events := EPOLLIN, callBack := some .readData }).myevents →
      s'.gepfd.opened = cfd :: s.gepfd.opened → Called N io ev s s' .initAccept
  | failed : io.read = none → s'.myevents = (s.setEv ev { s.myevents ev with buflen := -1 }).myevents →
      s'.gepfd.opened = s.gepfd.opened → Called N io ev s s' .readData
  | ended : io.read = some [] → s'.myevents = (s.setEv ev {}).myevents →
      s'.gepfd.opened = s.gepfd.opened.filter (· ≠ (s.myevents ev).fd) → Called N io ev s s' .readData
  | data (e : XxEvent) (bytes : List UInt8) : io.read = some bytes → bytes ≠ [] → e.data = bytes →
      s'.myevents = (s.setEv ev
        { e with fd := (s.myevents ev).fd, events := EPOLLOUT, callBack := some .senddata }).myevents →
      s'.gepfd.opened = s.gepfd.opened → Called N io ev s s' .readData
  | sent : s'.myevents = (s.setEv ev { s.myevents ev with events := EPOLLIN, callBack := some .readData }).myevents →
      s'.gepfd.opened = s.gepfd.opened → Called N io ev s s' .senddata

/-- It matters neither where `main` is nor what it has handled. -/
theorem Called.congr {N : Nat} {io : Io} {ev : Nat} {s0 s s' : Loop} {f : CallBack} (h : Called N io ev s0 s' f)
    (hm : s0.myevents = s.myevents) (hg : s0.gepfd = s.gepfd) : Called N io ev s s' f := by
  have hset (ev : Nat) (e : XxEvent) : (s0.setEv ev e).myevents = (s.setEv ev e).myevents := by simp only [Loop.setEv, hm]
  cases h with
  | refused hio he ho => exact .refused hio (he.trans hm) (hg ▸ ho)
  | accepted cfd i e hio hi he ho => exact .accepted cfd i e hio (hm ▸ hi) (he.trans (hset _ _)) (hg ▸ ho)
  | failed hio he ho => exact .failed hio (he.trans (hm ▸ hset _ _)) (hg ▸ ho)
  | ended hio he ho => exact .ended hio (he.trans (hset _ _)) (hm ▸ hg ▸ ho)
  | data e bytes hio hne hd he ho => exact .data e bytes hio hne hd (he.trans (hm ▸ hset _ _)) (hg ▸ ho)
  | sent he ho => exact .sent (he.trans (hm ▸ hset _ _)) (hg ▸ ho)

theorem initAccept_called (N : Nat) (io : Io) (ev : Nat) (s : Loop) : Called N io ev s (initAccept N io s) .initAccept := by
  unfold initAccept
  cases hcfd : io.accept with
  | none => exact .refused hcfd rfl rfl
  | some cfd =>
    refine .accepted cfd (freeEvent N (s.accepted cfd)) _ hcfd ?_ rfl (Kernel.ctl_opened .add)
    rcases freeEvent_cases N (s.accepted cfd) with ⟨hlt, hfree⟩ | ⟨he, -⟩
    · exact .inl ⟨hfree, hlt⟩
    · exact .inr he

theorem setEv_setEv (s : Loop) (ev : Nat) (e e' : XxEvent) : (s.setEv ev e).setEv ev e' = s.setEv ev e' := by
  simp only [Loop.setEv]
  congr 1
  funext ev'
  split <;> rfl

theorem store_data (e : XxEvent) (bytes : List UInt8) : (e.store (some bytes)).data = bytes := by
  simp [XxEvent.store, XxEvent.data]

theorem readData_called (N : Nat) (io : Io) (ev : Nat) (s : Loop) :
    Called N io ev s (readData io (s.myevents ev).fd ev s) .readData := by
  unfold readData
  cases hread : io.read with
  | none => exact .failed hread (by simp [XxEvent.store]) (by simp [XxEvent.store])
  | some bytes =>
    have hself : (s.setEv ev ((s.myevents ev).store (some bytes))).myevents ev = (s.myevents ev).store (some bytes) :=
      if_pos rfl
    dsimp only
    rw [hself]
    cases bytes with
    | nil =>
      have hzero : ((s.myevents ev).store (some [])).buflen = 0 := rfl
      rw [hzero, if_neg (by decide), if_pos rfl, eventdel]
      refine .ended hread ?_ (Kernel.ctl_opened .del)
      show ((s.setEv ev _).setEv ev {}).myevents = _
      rw [setEv_setEv]
    | cons b bs =>
      have hpos : ((s.myevents ev).store (some (b :: bs))).buflen > 0 := by
        show (((b :: bs).length : Nat) : Int) > 0
        rw [List.length_cons]
        omega
      rw [if_pos hpos, eventset, hself]
      refine .data ((s.myevents ev).store (some (b :: bs))) (b :: bs) hread (List.cons_ne_nil b bs) (store_data _ _) ?_
        (Kernel.ctl_opened .mod)
      rw [Loop.ctl_myevents, setEv_setEv]

theorem senddata_called (N : Nat) (io : Io) (ev : Nat) (s : Loop) :
    Called N io ev s (senddata (s.myevents ev).fd ev s) .senddata :=
  .sent rfl (Kernel.ctl_opened .mod)

/-- What an event does is what the callback does that it makes, if it makes one. -/
theorem handle_called (h : Entries N lfd s) {e : Reg Nat} {rest : List (Reg Nat)} (hpc : s.pc = .event e rest)
    {io : Io} (hs : handle N io e { s with pc := .next rest } = some s') :
    s.pending = none ∧ s'.myevents = s.myevents ∧ s'.gepfd.opened = s.gepfd.opened ∨
    ∃ f, s.pending = some (f, e.data) ∧ (s.myevents e.data).callBack = some f ∧ io.Possible s ∧ Called N io e.data s s' f := by
  unfold handle at hs
  have hpending : s.pending =
      if (s.myevents e.data).events &&& e.events ≠ 0 then (s.myevents e.data).callBack.map fun f => (f, e.data) else none := by
    unfold Loop.pending
    rw [hpc]
  dsimp only at hs
  split at hs
  case isTrue hbit =>
    obtain ⟨hio, hs⟩ := Option.ite_none_right_eq_some.mp hs
    have hio : io.Possible s := ⟨hio.accept, hio.read⟩
    rw [if_pos hbit] at hpending
    right
    rcases h.kind e.data with ⟨-, hevents, -⟩ | ⟨-, -, hcall⟩ | ⟨hcall | hcall, -, -⟩
    · rw [hevents, Nat.zero_and] at hbit
      exact absurd rfl hbit
    · rw [hcall] at hs hpending
      cases hs
      exact ⟨_, hpending, hcall, hio, (initAccept_called N io e.data _).congr rfl rfl⟩
    · rw [hcall] at hs hpending
      cases hs
      exact ⟨_, hpending, hcall, hio, (readData_called N io e.data { s with
        pc := .next rest
        handled := ⟨e.fd, e.events, some (.readData, (s.myevents e.data).fd)⟩ :: s.handled }).congr rfl rfl⟩
    · rw [hcall] at hs hpending
      cases hs
      exact ⟨_, hpending, hcall, hio, (senddata_called N io e.data { s with
        pc := .next rest
        handled := ⟨e.fd, e.events, some (.senddata, (s.myevents e.data).fd)⟩ :: s.handled }).congr rfl rfl⟩
  case isFalse hbit =>
    cases hs
    rw [if_neg hbit] at hpending
    exact .inl ⟨hpending, rfl, rfl⟩

/-- A client keeps its entry. -/
theorem Entries.keep (h : Entries N lfd s) {e : XxEvent} (hm : s'.myevents = (s.setEv ev e).myevents)
    (ho : s'.gepfd.opened = s.gepfd.opened) (hfd : e.fd = (s.myevents ev).fd) (hc : (s.myevents ev).Client)
    (he : e.Client) : Entries N lfd s' := by
  refine h.put hm ?_ (fun _ _ => hfd) (fun _ hnot => absurd hc hnot) fun fd => ?_
  · rcases h.kind ev with ⟨-, -, hnone⟩ | ⟨-, -, haccept⟩ | ⟨-, hne, h0⟩
    · simp [XxEvent.Client, hnone] at hc
    · simp [XxEvent.Client, haccept] at hc
    · exact .client he (hfd ▸ hne) (hfd ▸ h0)
  · rw [ho, hfd]
    by_cases hfd' : (s.myevents ev).fd = fd
    · have hmem : fd ∈ s.gepfd.opened := (h.opened fd).mpr (.inr ⟨ev, hc, hfd'⟩)
      simp [he, hc, hfd', hmem]
    · simp [hfd']

theorem Called.entries {f : CallBack} {io : Io} (hcalled : Called N io ev s s' f) (h : Entries N lfd s)
    (hcall : (s.myevents ev).callBack = some f) (hio : io.Possible s) : Entries N lfd s' := by
  cases hcalled with
  | refused _ hm ho => exact h.congr hm ho
  | accepted cfd i e haccept hi hm ho =>
    obtain ⟨hnew, hne0⟩ := hio.accept cfd haccept
    have hne : cfd ≠ lfd := by
      rintro rfl
      exact hnew ((h.opened cfd).mpr (.inl rfl))
    have hnot : ¬ (s.myevents i).Client := by
      intro hc
      rcases hi with ⟨hfree, -⟩ | rfl
      · exact h.client_ne_zero hc hfree
      · -- the entry behind the last one is still the listening one
        rw [h.listening_eq hcall] at hcall
        simp [XxEvent.Client, hcall] at hc
    refine h.put hm (.client (.inl rfl) hne hne0) (fun _ hc => absurd hc hnot) (fun _ _ => hnew) fun fd => ?_
    have hnew' : ({ e with fd := cfd, events := EPOLLIN, callBack := some .readData } : XxEvent).Client := .inl rfl
    rw [ho, List.mem_cons]
    simp only [hnot, hnew', true_and, false_and, not_false_eq_true, and_true]
    exact or_congr_left eq_comm
  | failed _ hm ho => exact h.keep hm ho rfl (.inl hcall) (.inl hcall)
  | ended _ hm ho =>
    have hc : (s.myevents ev).Client := .inl hcall
    have hnot : ¬ ({} : XxEvent).Client := by simp [XxEvent.Client]
    refine h.put hm (.free rfl rfl rfl) (fun hc => absurd hc hnot) (fun hc => absurd hc hnot) fun fd => ?_
    rw [ho, List.mem_filter, decide_eq_true_eq]
    simp only [hnot, hc, true_and, false_and, false_or]
    exact and_congr_right fun _ => not_congr eq_comm
  | data e bytes _ _ _ hm ho => exact h.keep hm ho rfl (.inl hcall) (.inr rfl)
  | sent hm ho => exact h.keep hm ho rfl (.inr hcall) (.inl rfl)

theorem listening_myevents (N lfd ev : Nat) : (listening N lfd).myevents ev =
    if ev = N then { fd := lfd, events := EPOLLIN, callBack := some .initAccept } else {} := rfl

theorem listening_client (N lfd ev : Nat) : ¬ ((listening N lfd).myevents ev).Client := by
  rw [listening_myevents]
  split <;> simp [XxEvent.Client]

theorem listening_entries (N lfd : Nat) : Entries N lfd (listening N lfd) := by
  have hopened : (listening N lfd).gepfd.opened = [lfd] := Kernel.ctl_opened .add
  refine ⟨fun ev => ?_, fun ev _ hc => absurd hc (listening_client N lfd ev), fun fd => ?_⟩
  · rw [listening_myevents]
    split
    case isTrue hev => exact .listening hev rfl rfl
    case isFalse => exact .free rfl rfl rfl
  · rw [hopened, List.mem_singleton]
    simp [listening_client]

theorem wait_same {events : Option (List (Reg Nat))} (hs : reactorStep N s (.wait events) = some s') :
    s'.myevents = s.myevents ∧ s'.gepfd = s.gepfd := by
  simp only [reactorStep] at hs
  split at hs
  · cases hs
    exact ⟨rfl, rfl⟩
  · obtain ⟨-, hs⟩ := Option.ite_none_right_eq_some.mp hs
    cases hs
    exact ⟨rfl, rfl⟩
  · cases hs

theorem entries_step (h : Entries N lfd s) {a : ReactorAct} (hs : reactorStep N s a = some s') : Entries N lfd s' := by
  cases a with
  | wait events =>
    obtain ⟨hm, hg⟩ := wait_same hs
    exact h.congr hm (congrArg Kernel.opened hg)
  | handle io =>
    simp only [reactorStep] at hs
    split at hs
    · rename_i e rest hpc
      obtain ⟨-, hm, ho⟩ | ⟨f, -, hcall, hio, hcalled⟩ := handle_called h hpc hs
      · exact h.congr hm ho
      · exact hcalled.entries h hcall hio
    · cases hs

/-- Every callback that the dispatch loop makes is made through a pointer that is set, with
an open descriptor that no client has in another entry. -/
theorem dispatch_safe (h : Lts.Reach (reactorStep N) (listening N lfd) s) {e : Reg Nat} {rest : List (Reg Nat)}
    (hpc : s.pc = .event e rest) (hbit : (s.myevents e.data).events &&& e.events ≠ 0) :
    (∃ f, s.pending = some (f, e.data)) ∧ (s.myevents e.data).fd ∈ s.gepfd.opened ∧
      ∀ ev, (s.myevents ev).Client → (s.myevents ev).fd = (s.myevents e.data).fd → ev = e.data := by
  have hent : Entries N lfd s := h.invariant (fun _ _ _ h hs => entries_step h hs) (listening_entries N lfd)
  have hpending : s.pending = (s.myevents e.data).callBack.map fun f => (f, e.data) := by
    unfold Loop.pending
    rw [hpc]
    exact if_pos hbit
  rw [hpending]
  rcases hent.kind e.data with ⟨-, hevents, -⟩ | ⟨-, hfd, hcall⟩ | ⟨hclient, -, -⟩
  · rw [hevents, Nat.zero_and] at hbit
    exact absurd rfl hbit
  · rw [hcall, hfd]
    exact ⟨⟨_, rfl⟩, (hent.opened lfd).mpr (.inl rfl), fun ev hc he => absurd he (hent.client_ne hc)⟩
  · refine ⟨?_, (hent.opened _).mpr (.inr ⟨e.data, hclient, rfl⟩), fun ev hc he => hent.distinct e.data ev hclient hc he⟩
    rcases hclient with hcall | hcall <;> rw [hcall] <;> exact ⟨_, rfl⟩

/-! ## The accounts -/

structure Echoes (N lfd : Nat) (s : Echoing) : Prop where
  entries : Entries N lfd s.loop
  accounts : ∀ ev, (s.loop.myevents ev).Client →
    (s.conns (s.loop.myevents ev).fd).Sound id (s.loop.myevents ev).held
  closed : ∀ c ∈ s.closed, c.Sound id [] ∧ c.input = []

theorem held_readData {e : XxEvent} (h : e.callBack = some .readData) : e.held = [] := by
  rw [XxEvent.held, h]
  exact if_neg (by decide)

theorem held_senddata {e : XxEvent} (h : e.callBack = some .senddata) : e.held = e.data := by
  rw [XxEvent.held, h]
  exact if_pos rfl

theorem modify_self (s : Echoing) (fd : Nat) (f : Account UInt8 → Account UInt8) :
    (s.modify fd f).conns fd = f (s.conns fd) := if_pos rfl

theorem modify_other (s : Echoing) {fd fd' : Nat} (hne : fd' ≠ fd) (f : Account UInt8 → Account UInt8) :
    (s.modify fd f).conns fd' = s.conns fd' := if_neg hne

/-- What the callback does to its own client keeps the account sound, and the others stay. -/
theorem Echoes.put {s t : Echoing} {loop : Loop} (h : Echoes N lfd s) (hent : Entries N lfd loop) {e : XxEvent}
    (hm : loop.myevents = (s.loop.setEv ev e).myevents) (hclosed : ∀ c ∈ t.closed, c.Sound id [] ∧ c.input = [])
    (hother : ∀ ev', ev' ≠ ev → (s.loop.myevents ev').Client →
      t.conns (s.loop.myevents ev').fd = s.conns (s.loop.myevents ev').fd)
    (held : List UInt8) (hheld : e.Client → e.held = held) (hself : e.Client → (t.conns e.fd).Sound id held) :
    Echoes N lfd { t with loop } := by
  refine ⟨hent, fun ev' hc => ?_, hclosed⟩
  dsimp only at hc ⊢
  by_cases hev : ev' = ev
  · have he : loop.myevents ev' = e := by simp [hm, hev]
    rw [he] at hc ⊢
    rw [hheld hc]
    exact hself hc
  · have he : loop.myevents ev' = s.loop.myevents ev' := by simp [hm, hev]
    rw [he] at hc ⊢
    rw [hother ev' hev hc]
    exact h.accounts ev' hc

theorem Called.echoes {s : Echoing} {loop : Loop} {f : CallBack} {io : Io} (hcalled : Called N io ev s.loop loop f)
    (h : Echoes N lfd s) (hcall : (s.loop.myevents ev).callBack = some f) (hio : io.Possible s.loop)
    (hdelivers : f = .readData → ∀ bytes ∈ io.read, bytes <+: (s.conns (s.loop.myevents ev).fd).input ∧
      (bytes = [] → (s.conns (s.loop.myevents ev).fd).input = [])) (taken : Nat) :
    Echoes N lfd { s.streams io taken (f, ev) with loop } := by
  have hent := hcalled.entries h.entries hcall hio
  have hapart {ev' : Nat} (hne : ev' ≠ ev) (hc : (s.loop.myevents ev).Client) (hc' : (s.loop.myevents ev').Client) :
      (s.loop.myevents ev').fd ≠ (s.loop.myevents ev).fd := fun he => hne (h.entries.distinct ev ev' hc hc' he)
  cases hcalled with
  | refused haccept hm ho =>
    have hs : s.streams io taken (.initAccept, ev) = s := by simp only [Echoing.streams, haccept]
    rw [hs]
    refine ⟨hent, ?_, h.closed⟩
    dsimp only
    rw [hm]
    exact h.accounts
  | accepted cfd i e haccept hi hm ho =>
    have hs : s.streams io taken (.initAccept, ev) = s.modify cfd fun _ => {} := by simp only [Echoing.streams, haccept]
    have hnew : ∀ ev', (s.loop.myevents ev').Client → (s.loop.myevents ev').fd ≠ cfd := by
      intro ev' hc he
      exact (hio.accept cfd haccept).1 ((h.entries.opened cfd).mpr (.inr ⟨ev', hc, he⟩))
    rw [hs]
    refine h.put hent hm h.closed (fun ev' _ hc => modify_other s (hnew ev' hc) _) [] (fun _ => held_readData rfl) fun _ => ?_
    show ((s.modify cfd fun _ => {}).conns cfd).Sound id []
    rw [modify_self]
    exact Account.sound_new id []
  | failed hread hm ho =>
    have hs : s.streams io taken (.readData, ev) = s := by simp only [Echoing.streams, hread]
    have hold := h.accounts ev (.inl hcall)
    rw [held_readData hcall] at hold
    rw [hs]
    exact h.put hent hm h.closed (fun _ _ _ => rfl) [] (fun _ => held_readData hcall) fun _ => hold
  | ended hread hm ho =>
    have hs : s.streams io taken (.readData, ev) =
        { s with closed := s.conns (s.loop.myevents ev).fd :: s.closed } := by simp only [Echoing.streams, hread]
    have hold := h.accounts ev (.inl hcall)
    rw [held_readData hcall] at hold
    have hnot : ¬ ({} : XxEvent).Client := by simp [XxEvent.Client]
    rw [hs]
    refine h.put hent hm (fun c hc => ?_) (fun _ _ _ => rfl) [] (fun hc => absurd hc hnot) fun hc => absurd hc hnot
    rcases List.mem_cons.mp hc with rfl | hc
    · exact ⟨hold, (hdelivers rfl [] (by simp [hread])).2 rfl⟩
    · exact h.closed c hc
  | data e bytes hread hne hdata hm ho =>
    obtain ⟨b, bs, rfl⟩ := List.exists_cons_of_ne_nil hne
    have hs : s.streams io taken (.readData, ev) =
        s.modify (s.loop.myevents ev).fd fun a => a.take (b :: bs).length := by simp only [Echoing.streams, hread]
    have hold := h.accounts ev (.inl hcall)
    rw [held_readData hcall] at hold
    have hfirst := List.prefix_iff_eq_take.mp (hdelivers rfl (b :: bs) (by simp [hread])).1
    rw [hs]
    refine h.put hent hm h.closed (fun ev' hev hc => modify_other s (hapart hev (.inl hcall) hc) _) (b :: bs)
      (fun _ => (held_senddata rfl).trans hdata) fun _ => ?_
    show ((s.modify (s.loop.myevents ev).fd fun a => a.take (b :: bs).length).conns (s.loop.myevents ev).fd).Sound id (b :: bs)
    rw [modify_self]
    have htake := hold.take (b :: bs).length
    rwa [← hfirst] at htake
  | sent hm ho =>
    have hs : s.streams io taken (.senddata, ev) =
        s.modify (s.loop.myevents ev).fd fun a => a.put id (s.loop.myevents ev).data taken := rfl
    have hold := h.accounts ev (.inr hcall)
    rw [held_senddata hcall] at hold
    rw [hs]
    refine h.put hent hm h.closed (fun ev' hev hc => modify_other s (hapart hev (.inr hcall) hc) _) []
      (fun _ => held_readData rfl) fun _ => ?_
    show ((s.modify (s.loop.myevents ev).fd fun a => a.put id (s.loop.myevents ev).data taken).conns
      (s.loop.myevents ev).fd).Sound id []
    rw [modify_self]
    exact hold.put taken

theorem echoes_step {s s' : Echoing} (h : Echoes N lfd s) {a : EchoAct} (hs : echoStep N lfd s a = some s') :
    Echoes N lfd s' := by
  cases a with
  | arrive fd bytes =>
    obtain ⟨-, hs⟩ := Option.ite_none_right_eq_some.mp hs
    cases hs
    refine ⟨h.entries, fun ev hc => ?_, h.closed⟩
    have hold := h.accounts ev hc
    show ((s.modify fd fun a => a.arrive bytes).conns (s.loop.myevents ev).fd).Sound id (s.loop.myevents ev).held
    by_cases hfd : (s.loop.myevents ev).fd = fd
    · rw [hfd] at hold ⊢
      rw [modify_self]
      exact hold.arrive bytes
    · rwa [modify_other s hfd]
  | reactor a taken =>
    cases a with
    | wait events =>
      obtain ⟨loop, hloop, rfl⟩ := Option.map_eq_some_iff.mp hs
      obtain ⟨hm, hg⟩ := wait_same hloop
      refine ⟨h.entries.congr hm (congrArg Kernel.opened hg), ?_, h.closed⟩
      dsimp only
      rw [hm]
      exact h.accounts
    | handle io =>
      obtain ⟨hdelivers, hs⟩ := Option.ite_none_right_eq_some.mp hs
      obtain ⟨loop, hloop, rfl⟩ := Option.map_eq_some_iff.mp hs
      simp only [reactorStep] at hloop
      split at hloop
      · rename_i e rest hpc
        obtain ⟨hnone, hm, ho⟩ | ⟨f, hpending, hcall, hio, hcalled⟩ := handle_called h.entries hpc hloop
        · rw [hnone, Option.elim_none]
          refine ⟨h.entries.congr hm ho, ?_, h.closed⟩
          dsimp only
          rw [hm]
          exact h.accounts
        · rw [hpending, Option.elim_some]
          exact hcalled.echoes h hcall hio (hdelivers (f, e.data) hpending) taken
      · cases hloop

/-- In every run, also after a client has taken the listening entry: what was sent to a
client is what it has sent, in its order; what is missing is unread, or in the buffer of
its entry, or was not taken by a `Write`. When it is closed, nothing is unread. -/
theorem reactor_echoes {s : Echoing} (h : Lts.Reach (echoStep N lfd) (echoStart N lfd) s) :
    (∀ fd ∈ s.loop.gepfd.opened, fd ≠ lfd → ∃ ev, (s.loop.myevents ev).fd = fd ∧
      (s.conns fd).Faithful id (s.loop.myevents ev).held) ∧
    ∀ c ∈ s.closed, c.Faithful id [] ∧ c.input = [] := by
  have hstart : Echoes N lfd (echoStart N lfd) := ⟨listening_entries N lfd,
    fun ev hc => absurd hc (listening_client N lfd ev), fun c hc => absurd hc List.not_mem_nil⟩
  have hinv : Echoes N lfd s := h.invariant (fun _ _ _ h hs => echoes_step h hs) hstart
  refine ⟨fun fd hopen hne => ?_, fun c hc => ⟨(hinv.closed c hc).1.faithful, (hinv.closed c hc).2⟩⟩
  rcases (hinv.entries.opened fd).mp hopen with he | ⟨ev, hclient, rfl⟩
  · exact absurd he hne
  · exact ⟨ev, rfl, (hinv.accounts ev hclient).faithful⟩

end

/-- A table with one entry, and two clients: the second one takes the listening entry. -/
def twoClients : List ReactorAct :=
  [.wait (some [⟨3, 1, EPOLLIN⟩]), .handle { accept := some 4 }, .wait (some [⟨3, 1, EPOLLIN⟩]),
    .handle { accept := some 5 }]

/-- The next event of the listening descriptor has `readData` called for the second client. -/
theorem dispatch_safe_overwritten : ∃ s e rest, Lts.Reach (reactorStep 1) (listening 1 3) s ∧ s.pc = .event e rest ∧
    e.fd = 3 ∧ (s.myevents e.data).fd = 5 ∧ 5 ∈ s.gepfd.opened ∧ ∃ f, s.pending = some (f, e.data) := by
  obtain ⟨s, hr, hs⟩ := Lts.Reach.of_run (reactorStep 1) (listening 1 3)
    (fun s => decide (s.pc = .event ⟨3, 1, EPOLLIN⟩ [] ∧ (s.myevents 1).fd = 5 ∧ (s.myevents 1).events &&& EPOLLIN ≠ 0))
    (twoClients ++ [.wait (some [⟨3, 1, EPOLLIN⟩])]) (by decide +kernel)
  obtain ⟨hpc, hfd, hbit⟩ := of_decide_eq_true hs
  obtain ⟨hcall, hopen, -⟩ := dispatch_safe hr hpc hbit
  exact ⟨s, ⟨3, 1, EPOLLIN⟩, [], hr, hpc, rfl, hfd, hfd ▸ hopen, hcall⟩

/-- Both send, and the answer to the first one is cut short. -/
theorem reactor_echoes_two : ∃ s, Lts.Reach (echoStep 1 3) (echoStart 1 3) s ∧ (s.conns 4).written = [104] ∧
    (s.conns 5).written = [111] ∧ (∃ ev, (s.loop.myevents ev).fd = 4 ∧ (s.conns 4).Faithful id (s.loop.myevents ev).held) := by
  obtain ⟨s, hr, hs⟩ := Lts.Reach.of_run (echoStep 1 3) (echoStart 1 3)
    (fun s => decide (4 ∈ s.loop.gepfd.opened ∧ (s.conns 4).written = [104] ∧ (s.conns 5).written = [111]))
    (twoClients.map (EchoAct.reactor · 0) ++ [.arrive 4 [104, 105], .arrive 5 [111],
      .reactor (.wait (some [⟨4, 0, EPOLLIN⟩, ⟨5, 1, EPOLLIN⟩])) 0, .reactor (.handle { read := some [104, 105] }) 0,
      .reactor (.handle { read := some [111] }) 0, .reactor (.wait (some [⟨4, 0, EPOLLOUT⟩, ⟨5, 1, EPOLLOUT⟩])) 0,
      .reactor (.handle {}) 1, .reactor (.handle {}) 1]) (by decide +kernel)
  obtain ⟨hopen, h4, h5⟩ := of_decide_eq_true hs
  exact ⟨s, hr, h4, h5, (reactor_echoes hr).1 4 hopen (by decide)⟩

end CSocket.Reactor
