import CSocket.Os
/-!
# Reading and writing exact counts, and the readiness waits

`readn`, `writen`, `read_timeout` and `write_timeout` of `socketutil.c`. Each
loop consumes one outcome of its system call per round, so it is a recursion on
the schedule. `readn_end`, `writen_end` and `ioTimeout_end` say all that a
call can do; nothing below them unfolds a loop.
-/
namespace CSocket

/-! ## The code -/

/-- `readn`'s loop: `nleft` bytes to go, `buf` already stored. -/
def readnLoop (count : Nat) : List ReadOutcome → Nat → List UInt8 → Conn → Outcome Conn (Int × List UInt8)
  | rs, nleft, buf, c =>
    if nleft = 0 then .ret (toSsize count, buf) { c with reads := rs }
    else match rs with
      | [] => .stalled { c with reads := [] }
      | .error e :: rs =>
        if e = EINTR then readnLoop count rs nleft buf { c with errno := e }
        else .ret (-1, buf) { c with errno := e, reads := rs }
      | .ready k :: rs =>
        let got := c.input.take (min (k + 1) nleft)
        if got.length = 0 then .ret (toSsize ((count : Int) - nleft), buf) { c with reads := rs }
        else readnLoop count rs (nleft - got.length) (buf ++ got) { c with input := c.input.drop got.length }

/-- `readn`: the result and the bytes stored into the caller's buffer. -/
def readn (count : Nat) : Prog Conn (Int × List UInt8) := fun c => readnLoop count c.reads count [] c

/-- `writen`'s loop: `nleft` bytes to go, `bufp` the rest of the buffer. -/
def writenLoop (count : Nat) : List WriteOutcome → Nat → List UInt8 → Conn → Outcome Conn Int
  | ws, nleft, bufp, c =>
    if nleft = 0 then .ret (toSsize count) { c with writes := ws }
    else match ws with
      | [] => .stalled { c with writes := [] }
      | .error e :: ws =>
        if e = EINTR then writenLoop count ws nleft bufp { c with errno := e }
        else .ret (-1) { c with errno := e, writes := ws }
      | .accepts k :: ws =>
        let n := min k nleft
        -- `nwritten == 0` takes the `continue`
        if n = 0 then writenLoop count ws nleft bufp c
        else writenLoop count ws (nleft - n) (bufp.drop n) { c with output := c.output ++ bufp.take n }

/-- `writen` of the first `count` bytes of `buf`. -/
def writen (buf : List UInt8) (count : Nat) : Prog Conn Int := fun c => writenLoop count c.writes count buf c

/-- `do { ret = select(..) } while (ret < 0 && errno == EINTR)` -/
def selectLoop : List SelectOutcome → Conn → Outcome Conn Int
  | [], c => .stalled { c with selects := [] }
  | .ready :: os, c => .ret 1 { c with selects := os }
  | .timeout :: os, c => .ret 0 { c with selects := os }
  | .error e :: os, c =>
    if e = EINTR then selectLoop os { c with errno := e }
    else .ret (-1) { c with errno := e, selects := os }

def selectReady : Prog Conn Int := fun c => selectLoop c.selects c

/-- The body `read_timeout` and `write_timeout` share; they differ in the set
they pass to `select`. -/
def ioTimeout (waitSeconds : Nat) : Prog Conn Int :=
  if waitSeconds > 0 then do
    let ret ← selectReady
    if ret = 0 then do
      Prog.update fun c => { c with errno := ETIMEDOUT }
      return -1
    else if ret = 1 then return 0
    else return ret
  else return 0

def writeTimeout (waitSeconds : Nat) : Prog Conn Int := ioTimeout waitSeconds

def readTimeout (waitSeconds : Nat) : Prog Conn Int := ioTimeout waitSeconds

/-! ## What a call can do -/

/-- The schedule has a hard read error. -/
def HardRead (rs : List ReadOutcome) : Prop := ∃ e, e ≠ EINTR ∧ ReadOutcome.error e ∈ rs

def readies (rs : List ReadOutcome) : Nat := rs.countP fun o => match o with
  | .ready _ => true
  | .error _ => false

@[simp] theorem readies_ready (k : Nat) (rs : List ReadOutcome) : readies (.ready k :: rs) = readies rs + 1 := by
  simp [readies]

@[simp] theorem readies_error (e : Int) (rs : List ReadOutcome) : readies (.error e :: rs) = readies rs := by
  simp [readies]

/-- The reads take `n` bytes, where so many are there to take. -/
def arrives : Nat → List ReadOutcome → Bool
  | 0, _ => true
  | _ + 1, [] => false
  | n + 1, .ready k :: rs => arrives (n - k) rs
  | n + 1, .error e :: rs => e = EINTR && arrives (n + 1) rs

@[simp] theorem arrives_zero (rs : List ReadOutcome) : arrives 0 rs = true := by
  cases rs <;> rfl

theorem arrives_ready {n k : Nat} (hn : 0 < n) (rs : List ReadOutcome) :
    arrives n (.ready k :: rs) = arrives (n - (k + 1)) rs := by
  obtain ⟨m, rfl⟩ : ∃ m, n = m + 1 := ⟨n - 1, by omega⟩
  rw [arrives, Nat.add_sub_add_right]

theorem arrives_nil {n : Nat} (hn : 0 < n) : arrives n [] = false := by
  obtain ⟨m, rfl⟩ : ∃ m, n = m + 1 := ⟨n - 1, by omega⟩
  rfl

theorem arrives_eintr (n : Nat) (rs : List ReadOutcome) : arrives n (.error EINTR :: rs) = arrives n rs := by
  cases n <;> simp [arrives]

theorem arrives_hard {n : Nat} {e : Int} (hn : 0 < n) (he : e ≠ EINTR) (rs : List ReadOutcome) :
    arrives n (.error e :: rs) = false := by
  obtain ⟨m, rfl⟩ : ∃ m, n = m + 1 := ⟨n - 1, by omega⟩
  simp [arrives, he]

theorem HardRead.cons {o : ReadOutcome} {rs : List ReadOutcome} (h : HardRead rs) : HardRead (o :: rs) := by
  obtain ⟨e, he, hm⟩ := h
  exact ⟨e, he, List.mem_cons_of_mem _ hm⟩

theorem HardRead.suffix {rs rs' : List ReadOutcome} (h : HardRead rs') (hs : rs' <:+ rs) : HardRead rs := by
  obtain ⟨e, he, hm⟩ := h
  exact ⟨e, he, hs.subset hm⟩

/-- After `k` of the bytes still to come: everything but the input, the read
schedule and `errno` is as before. -/
def Conn.took (c : Conn) (k : Nat) (rs : List ReadOutcome) (e : Int) : Conn :=
  { c with input := c.input.drop k, reads := rs, errno := e }

/-- The four ways out of a read-exactly loop that has stored `buf` and has
`nleft` bytes to go: all of them, end of stream, a hard error, or still reading
when the schedule ends. -/
inductive ReadnEnd (count : Nat) (rs : List ReadOutcome) (nleft : Nat) (buf : List UInt8) (c : Conn) :
    Outcome Conn (Int × List UInt8) → Prop
  | full (rs' e) : nleft ≤ c.input.length → arrives nleft rs = true → rs' <:+ rs →
      readies rs ≤ readies rs' + nleft →
      ReadnEnd count rs nleft buf c (.ret (toSsize count, buf ++ c.input.take nleft) (c.took nleft rs' e))
  | eof (rs' e) : c.input.length < nleft → rs' <:+ rs → readies rs ≤ readies rs' + c.input.length + 1 →
      ReadnEnd count rs nleft buf c
        (.ret (toSsize ((count : Int) - nleft + c.input.length), buf ++ c.input) (c.took c.input.length rs' e))
  | failed (k rs' e) : k < nleft → k ≤ c.input.length → (nleft ≤ c.input.length → arrives nleft rs = false) →
      rs' <:+ rs → HardRead rs →
      ReadnEnd count rs nleft buf c (.ret (-1, buf ++ c.input.take k) (c.took k rs' e))
  | stalled (k e) : k < nleft → k ≤ c.input.length → (nleft ≤ c.input.length → arrives nleft rs = false) →
      readies rs ≤ k →
      ReadnEnd count rs nleft buf c (.stalled (c.took k [] e))

section
variable {count nleft : Nat} {rs : List ReadOutcome} {buf : List UInt8} {c : Conn}
  {r : Outcome Conn (Int × List UInt8)}

/-- An interrupted `read()` changes nothing but `errno`. -/
theorem ReadnEnd.retry (h : ReadnEnd count rs nleft buf { c with errno := EINTR } r) :
    ReadnEnd count (.error EINTR :: rs) nleft buf c r := by
  have hsuf : ∀ {rs'}, rs' <:+ rs → rs' <:+ .error EINTR :: rs := fun h => h.trans (List.suffix_cons _ _)
  have harr := arrives_eintr nleft rs
  cases h with
  | full rs' e' h1 h2 h3 h4 => exact .full rs' e' h1 (harr.trans h2) (hsuf h3) (by simpa using h4)
  | eof rs' e' h1 h2 h3 => exact .eof rs' e' h1 (hsuf h2) (by simpa using h3)
  | failed k rs' e' h1 h2 h3 h4 h5 =>
    exact .failed k rs' e' h1 h2 (fun h => harr.trans (h3 h)) (hsuf h4) h5.cons
  | stalled k e' h1 h2 h3 h4 => exact .stalled k e' h1 h2 (fun h => harr.trans (h3 h)) (by simpa using h4)

/-- A `read()` that took `g > 0` bytes. -/
theorem ReadnEnd.more {g k : Nat} (hg : g = min (min (k + 1) nleft) c.input.length) (h0 : 0 < g)
    (h : ReadnEnd count rs (nleft - g) (buf ++ c.input.take g) { c with input := c.input.drop g } r) :
    ReadnEnd count (.ready k :: rs) nleft buf c r := by
  generalize hc : ({ c with input := c.input.drop g } : Conn) = c' at h
  generalize hn : nleft - g = n at h
  generalize hb : buf ++ c.input.take g = b at h
  have hin : c'.input = c.input.drop g := by rw [← hc]
  have htook : ∀ k rs e, c'.took k rs e = c.took (g + k) rs e := by
    intro k rs e
    rw [← hc]
    simp [Conn.took]
  have hbuf : ∀ k, b ++ c'.input.take k = buf ++ c.input.take (g + k) := by
    intro k
    rw [← hb, hin, List.append_assoc, ← List.take_add]
  have hlen : c'.input.length = c.input.length - g := by rw [hin]; simp
  have hsuf : ∀ {rs'}, rs' <:+ rs → rs' <:+ .ready k :: rs := fun h => h.trans (List.suffix_cons _ _)
  have harr := arrives_ready (k := k) (show 0 < nleft by omega) rs
  cases h with
  | full rs' e' h1 h2 h3 h4 =>
    rw [hbuf, htook, show g + n = nleft by omega]
    refine .full rs' e' (by omega) ?_ (hsuf h3) (by simp; omega)
    rw [harr]
    -- what a `read()` may take is cut at `nleft`
    by_cases hk : k + 1 ≤ nleft
    · rwa [show nleft - (k + 1) = n by omega]
    · rw [show nleft - (k + 1) = 0 by omega, arrives_zero]
  | eof rs' e' h1 h2 h3 =>
    rw [htook, ← hb, hin, List.append_assoc, List.take_append_drop, List.length_drop,
      show g + (c.input.length - g) = c.input.length by omega,
      show (count : Int) - n + ((c.input.length - g : Nat) : Int) = (count : Int) - nleft + c.input.length by omega]
    exact .eof rs' e' (by omega) (hsuf h2) (by simp; omega)
  | failed k' rs' e' h1 h2 h3 h4 h5 =>
    rw [hbuf, htook]
    refine .failed (g + k') rs' e' (by omega) (by omega) (fun hl => ?_) (hsuf h4) h5.cons
    rw [harr, show nleft - (k + 1) = n by omega]
    exact h3 (by omega)
  | stalled k' e' h1 h2 h3 h4 =>
    rw [htook]
    refine .stalled (g + k') e' (by omega) (by omega) (fun hl => ?_) (by simp; omega)
    rw [harr, show nleft - (k + 1) = n by omega]
    exact h3 (by omega)

/-- Nothing to go. -/
theorem ReadnEnd.done : ReadnEnd count rs 0 buf c (.ret (toSsize count, buf) { c with reads := rs }) := by
  have h : ReadnEnd count rs 0 buf c (.ret (toSsize count, buf ++ c.input.take 0) (c.took 0 rs c.errno)) :=
    .full rs c.errno (Nat.zero_le _) (arrives_zero rs) (List.suffix_refl _) (Nat.le_refl _)
  simpa [Conn.took] using h

/-- The first `read()` finds the end of the stream. -/
theorem ReadnEnd.closed {k : Nat} (h0 : 0 < nleft) (hnil : c.input = []) :
    ReadnEnd count (.ready k :: rs) nleft buf c (.ret (toSsize ((count : Int) - nleft), buf) { c with reads := rs }) := by
  have h : ReadnEnd count (.ready k :: rs) nleft buf c (.ret (toSsize ((count : Int) - nleft + c.input.length),
      buf ++ c.input) (c.took c.input.length rs c.errno)) :=
    .eof rs c.errno (by simpa [hnil] using h0) (List.suffix_cons _ _) (by simp [hnil])
  simpa [Conn.took, hnil] using h

/-- The first `read()` fails. -/
theorem ReadnEnd.error {e : Int} (h0 : 0 < nleft) (he : e ≠ EINTR) :
    ReadnEnd count (.error e :: rs) nleft buf c (.ret (-1, buf) { c with errno := e, reads := rs }) := by
  have h : ReadnEnd count (.error e :: rs) nleft buf c (.ret (-1, buf ++ c.input.take 0) (c.took 0 rs e)) :=
    .failed 0 rs e h0 (Nat.zero_le _) (fun _ => arrives_hard h0 he rs) (List.suffix_cons _ _)
      ⟨e, he, List.mem_cons_self⟩
  simpa [Conn.took] using h

/-- The schedule ends before the first `read()` does. -/
theorem ReadnEnd.waiting (h0 : 0 < nleft) : ReadnEnd count [] nleft buf c (.stalled { c with reads := [] }) := by
  have h : ReadnEnd count [] nleft buf c (.stalled (c.took 0 [] c.errno)) :=
    .stalled 0 c.errno h0 (Nat.zero_le _) (fun _ => arrives_nil h0) (Nat.le_refl _)
  simpa [Conn.took] using h

end

theorem readnLoop_end (count : Nat) (rs : List ReadOutcome) : ∀ (nleft : Nat) (buf : List UInt8) (c : Conn),
    ReadnEnd count rs nleft buf c (readnLoop count rs nleft buf c) := by
  induction rs with
  | nil =>
    intro nleft buf c
    unfold readnLoop
    rcases Nat.eq_zero_or_pos nleft with rfl | h
    · rw [if_pos rfl]
      exact .done
    · rw [if_neg (Nat.pos_iff_ne_zero.mp h)]
      exact .waiting h
  | cons o rs ih =>
    intro nleft buf c
    unfold readnLoop
    rcases Nat.eq_zero_or_pos nleft with rfl | h
    · rw [if_pos rfl]
      exact .done
    rw [if_neg (Nat.pos_iff_ne_zero.mp h)]
    cases o with
    | error e =>
      dsimp only
      by_cases he : e = EINTR
      · subst he
        rw [if_pos rfl]
        exact (ih nleft buf _).retry
      · rw [if_neg he]
        exact .error h he
    | ready k =>
      dsimp only
      generalize hg : (c.input.take (min (k + 1) nleft)).length = g
      have hmin : g = min (min (k + 1) nleft) c.input.length := by rw [← hg]; simp
      have htake : c.input.take (min (k + 1) nleft) = c.input.take g := by
        rw [hmin, ← List.take_eq_take_min]
      by_cases hz : g = 0
      · rw [if_pos hz]
        exact .closed h (List.eq_nil_of_length_eq_zero (by omega))
      · rw [if_neg hz, htake]
        exact (ih _ _ _).more hmin (Nat.pos_of_ne_zero hz)

theorem readn_end (count : Nat) (c : Conn) : ReadnEnd count c.reads count [] c (readn count c) :=
  readnLoop_end count c.reads count [] c

/-- The reads left once `n` bytes were taken. -/
def readsLeft : Nat → List ReadOutcome → List ReadOutcome
  | 0, rs => rs
  | _ + 1, [] => []
  | n + 1, .ready k :: rs => readsLeft (n - k) rs
  | n + 1, .error _ :: rs => readsLeft (n + 1) rs

@[simp] theorem readsLeft_zero (rs : List ReadOutcome) : readsLeft 0 rs = rs := by
  cases rs <;> rfl

/-- Where the bytes are there and arrive, `readn` takes them and no more. -/
theorem readnLoop_full (count : Nat) (rs : List ReadOutcome) : ∀ (nleft : Nat) (buf : List UInt8) (c : Conn),
    nleft ≤ c.input.length → arrives nleft rs = true →
    ∃ e, readnLoop count rs nleft buf c =
      .ret (toSsize count, buf ++ c.input.take nleft) (c.took nleft (readsLeft nleft rs) e) := by
  induction rs with
  | nil =>
    intro nleft buf c _ harr
    unfold readnLoop
    cases nleft with
    | zero => exact ⟨c.errno, by simp [Conn.took]⟩
    | succ n => cases harr
  | cons o rs ih =>
    intro nleft buf c hlen harr
    unfold readnLoop
    cases nleft with
    | zero => exact ⟨c.errno, by simp [Conn.took]⟩
    | succ n =>
      rw [if_neg (Nat.succ_ne_zero n)]
      cases o with
      | error e =>
        simp only [arrives, Bool.and_eq_true, decide_eq_true_eq] at harr
        dsimp only
        rw [if_pos harr.1]
        exact ih (n + 1) buf { c with errno := e } hlen harr.2
      | ready k =>
        rw [arrives] at harr
        have hgot : (c.input.take (min (k + 1) (n + 1))).length = min (k + 1) (n + 1) := by
          rw [List.length_take]
          omega
        dsimp only
        rw [hgot, if_neg (by omega)]
        generalize hg : min (k + 1) (n + 1) = g
        have hrest : n + 1 - g = n - k := by omega
        rw [hrest]
        obtain ⟨e, he⟩ := ih (n - k) (buf ++ c.input.take g) { c with input := c.input.drop g }
          (by rw [List.length_drop]; omega) harr
        refine ⟨e, he.trans ?_⟩
        rw [List.append_assoc, ← List.take_add, readsLeft]
        simp only [Conn.took, List.drop_drop]
        rw [show g + (n - k) = n + 1 by omega]

/-! ### `writen` -/

/-- After `k` more bytes of `bufp` were accepted. -/
def Conn.gave (c : Conn) (bufp : List UInt8) (k : Nat) (ws : List WriteOutcome) (e : Int) : Conn :=
  { c with output := c.output ++ bufp.take k, writes := ws, errno := e }

/-- The three ways out of `writen`'s loop: everything accepted, a hard error, or
still writing when the schedule ends. -/
inductive WritenEnd (count nleft : Nat) (bufp : List UInt8) (c : Conn) : Outcome Conn Int → Prop
  | sent (ws e) : WritenEnd count nleft bufp c (.ret (toSsize count) (c.gave bufp nleft ws e))
  | failed (k ws e) : k < nleft → WritenEnd count nleft bufp c (.ret (-1) (c.gave bufp k ws e))
  | stalled (k e) : k < nleft → WritenEnd count nleft bufp c (.stalled (c.gave bufp k [] e))

section
variable {count nleft : Nat} {bufp : List UInt8} {c : Conn} {r : Outcome Conn Int}

theorem WritenEnd.retry (e : Int) (h : WritenEnd count nleft bufp { c with errno := e } r) :
    WritenEnd count nleft bufp c r := by
  cases h with
  | sent ws e => exact .sent ws e
  | failed k ws e h => exact .failed k ws e h
  | stalled k e h => exact .stalled k e h

/-- A `write()` that took `n` bytes. -/
theorem WritenEnd.more {n : Nat} (hn : n ≤ nleft)
    (h : WritenEnd count (nleft - n) (bufp.drop n) { c with output := c.output ++ bufp.take n } r) :
    WritenEnd count nleft bufp c r := by
  generalize hc : ({ c with output := c.output ++ bufp.take n } : Conn) = c' at h
  generalize hm : nleft - n = m at h
  have hgave : ∀ k ws e, c'.gave (bufp.drop n) k ws e = c.gave bufp (n + k) ws e := by
    intro k ws e
    rw [← hc]
    simp [Conn.gave, List.take_add]
  cases h with
  | sent ws e => rw [hgave, show n + m = nleft by omega]; exact .sent ws e
  | failed k ws e h => rw [hgave]; exact .failed (n + k) ws e (by omega)
  | stalled k e h => rw [hgave]; exact .stalled (n + k) e (by omega)

theorem WritenEnd.done (ws : List WriteOutcome) :
    WritenEnd count 0 bufp c (.ret (toSsize count) { c with writes := ws }) := by
  have h : WritenEnd count 0 bufp c (.ret (toSsize count) (c.gave bufp 0 ws c.errno)) := .sent ws c.errno
  simpa [Conn.gave] using h

theorem WritenEnd.error (ws : List WriteOutcome) (e : Int) (h0 : 0 < nleft) :
    WritenEnd count nleft bufp c (.ret (-1) { c with errno := e, writes := ws }) := by
  have h : WritenEnd count nleft bufp c (.ret (-1) (c.gave bufp 0 ws e)) := .failed 0 ws e h0
  simpa [Conn.gave] using h

theorem WritenEnd.waiting (h0 : 0 < nleft) : WritenEnd count nleft bufp c (.stalled { c with writes := [] }) := by
  have h : WritenEnd count nleft bufp c (.stalled (c.gave bufp 0 [] c.errno)) := .stalled 0 c.errno h0
  simpa [Conn.gave] using h

end

theorem writenLoop_end (count : Nat) (ws : List WriteOutcome) : ∀ (nleft : Nat) (bufp : List UInt8) (c : Conn),
    WritenEnd count nleft bufp c (writenLoop count ws nleft bufp c) := by
  induction ws with
  | nil =>
    intro nleft bufp c
    unfold writenLoop
    rcases Nat.eq_zero_or_pos nleft with rfl | h
    · rw [if_pos rfl]
      exact .done []
    · rw [if_neg (Nat.pos_iff_ne_zero.mp h)]
      exact .waiting h
  | cons o ws ih =>
    intro nleft bufp c
    unfold writenLoop
    rcases Nat.eq_zero_or_pos nleft with rfl | h
    · rw [if_pos rfl]
      exact .done (o :: ws)
    rw [if_neg (Nat.pos_iff_ne_zero.mp h)]
    cases o with
    | error e =>
      dsimp only
      by_cases he : e = EINTR
      · rw [if_pos he]
        exact (ih nleft bufp _).retry e
      · rw [if_neg he]
        exact .error ws e h
    | accepts k =>
      dsimp only
      split
      · exact ih nleft bufp c
      · exact (ih _ _ _).more (Nat.min_le_right _ _)

theorem writen_end (buf : List UInt8) (count : Nat) (c : Conn) : WritenEnd count count buf c (writen buf count c) :=
  writenLoop_end count c.writes count buf c

/-- The writes take `n` bytes. -/
def takes : Nat → List WriteOutcome → Bool
  | 0, _ => true
  | _ + 1, [] => false
  | n + 1, .accepts k :: ws => takes (n + 1 - k) ws
  | n + 1, .error e :: ws => e = EINTR && takes (n + 1) ws

@[simp] theorem takes_zero (ws : List WriteOutcome) : takes 0 ws = true := by
  cases ws <;> rfl

/-- `writen` returns its count just if the schedule takes so many bytes. -/
theorem writenLoop_takes {count : Nat} (hcount : count ≤ PTRDIFF_MAX) (ws : List WriteOutcome) :
    ∀ (nleft : Nat) (bufp : List UInt8) (c : Conn),
    takes nleft ws = true ↔ ∃ c', writenLoop count ws nleft bufp c = .ret (toSsize count) c' := by
  have hne : (-1 : Int) ≠ toSsize count := by
    unfold PTRDIFF_MAX at hcount
    rw [toSsize_eq (by omega) (by omega)]
    omega
  induction ws with
  | nil =>
    intro nleft bufp c
    unfold writenLoop
    cases nleft with
    | zero => exact iff_of_true rfl ⟨_, rfl⟩
    | succ n => exact iff_of_false Bool.false_ne_true fun ⟨c', h⟩ => nomatch h
  | cons o ws ih =>
    intro nleft bufp c
    unfold writenLoop
    cases nleft with
    | zero => exact iff_of_true (takes_zero _) ⟨_, rfl⟩
    | succ n =>
      rw [if_neg (Nat.succ_ne_zero n)]
      cases o with
      | error e =>
        dsimp only
        by_cases he : e = EINTR
        · rw [if_pos he]
          simpa [takes, he] using ih (n + 1) bufp { c with errno := e }
        · rw [if_neg he]
          refine iff_of_false (by simp [takes, he]) fun ⟨c', h⟩ => hne ?_
          injection h
      | accepts k =>
        dsimp only
        by_cases hz : min k (n + 1) = 0
        · rw [if_pos hz]
          obtain rfl : k = 0 := by omega
          exact ih (n + 1) bufp c
        · rw [if_neg hz, takes, show n + 1 - k = n + 1 - min k (n + 1) by omega]
          exact ih _ _ _

/-! ### The waits -/

def selReadies (os : List SelectOutcome) : Nat := os.count .ready

/-- The first call of `select` that is not interrupted reports the descriptor
ready. -/
def firstReady : List SelectOutcome → Bool
  | [] => false
  | .ready :: _ => true
  | .timeout :: _ => false
  | .error e :: os => e = EINTR && firstReady os

/-- What `select` returned, once the interrupted calls are repeated. -/
inductive SelectEnd (os : List SelectOutcome) (c : Conn) : Outcome Conn Int → Prop
  | ready (os' e) : firstReady os = true → selReadies os = selReadies os' + 1 →
      SelectEnd os c (.ret 1 { c with selects := os', errno := e })
  | timeout (os' e) : firstReady os = false → selReadies os = selReadies os' → os'.length < os.length →
      SelectEnd os c (.ret 0 { c with selects := os', errno := e })
  | failed (os' e) : firstReady os = false → selReadies os = selReadies os' → os'.length < os.length →
      SelectEnd os c (.ret (-1) { c with selects := os', errno := e })
  | stalled (e) : firstReady os = false → selReadies os = 0 →
      SelectEnd os c (.stalled { c with selects := [], errno := e })

theorem SelectEnd.retry {os : List SelectOutcome} {c : Conn} {r : Outcome Conn Int}
    (h : SelectEnd os { c with errno := EINTR } r) : SelectEnd (.error EINTR :: os) c r := by
  have hcount : selReadies (.error EINTR :: os) = selReadies os := by simp [selReadies]
  have hfirst : firstReady (.error EINTR :: os) = firstReady os := by simp [firstReady]
  cases h with
  | ready os' e' h1 h2 => exact .ready os' e' (hfirst.trans h1) (hcount.trans h2)
  | timeout os' e' h1 h2 h3 => exact .timeout os' e' (hfirst.trans h1) (hcount.trans h2) (Nat.lt_succ_of_lt h3)
  | failed os' e' h1 h2 h3 => exact .failed os' e' (hfirst.trans h1) (hcount.trans h2) (Nat.lt_succ_of_lt h3)
  | stalled e' h1 h2 => exact .stalled e' (hfirst.trans h1) (hcount.trans h2)

theorem selectLoop_end (os : List SelectOutcome) : ∀ c : Conn, SelectEnd os c (selectLoop os c) := by
  induction os with
  | nil => intro c; exact .stalled c.errno rfl rfl
  | cons o os ih =>
    intro c
    cases o with
    | ready => exact .ready os c.errno rfl (by simp [selReadies])
    | timeout => exact .timeout os c.errno rfl (by simp [selReadies]) (by simp)
    | error e =>
      unfold selectLoop
      by_cases he : e = EINTR
      · subst he
        rw [if_pos rfl]
        exact (ih _).retry
      · rw [if_neg he]
        exact .failed os e (by simp [firstReady, he]) (by simp [selReadies]) (by simp)

/-- What `select` says, once the interrupted calls are repeated. -/
def firstSelect (os : List SelectOutcome) : Option SelectOutcome := os.find? fun o => o ≠ .error EINTR

/-- The result of the loop for what `select` says. -/
inductive Selected (os : List SelectOutcome) (c : Conn) : Outcome Conn Int → Prop
  | ready (os' e) : firstSelect os = some .ready → Selected os c (.ret 1 { c with selects := os', errno := e })
  | timeout (os' e) : firstSelect os = some .timeout → Selected os c (.ret 0 { c with selects := os', errno := e })
  | failed (os' e) : firstSelect os = some (.error e) →
      Selected os c (.ret (-1) { c with selects := os', errno := e })
  | stalled (e) : firstSelect os = none → Selected os c (.stalled { c with selects := [], errno := e })

theorem firstSelect_eintr (os : List SelectOutcome) : firstSelect (.error EINTR :: os) = firstSelect os :=
  List.find?_cons_of_neg (by simp)

theorem firstSelect_cons {o : SelectOutcome} (ho : o ≠ .error EINTR) (os : List SelectOutcome) :
    firstSelect (o :: os) = some o := List.find?_cons_of_pos (by simpa using ho)

theorem selectLoop_selected (os : List SelectOutcome) : ∀ c : Conn, Selected os c (selectLoop os c) := by
  induction os with
  | nil => exact fun c => .stalled c.errno rfl
  | cons o os ih =>
    intro c
    cases o with
    | ready => exact .ready os c.errno (firstSelect_cons (by simp) os)
    | timeout => exact .timeout os c.errno (firstSelect_cons (by simp) os)
    | error e =>
      unfold selectLoop
      by_cases he : e = EINTR
      · subst he
        have hfirst := firstSelect_eintr os
        have hend := ih { c with errno := EINTR }
        rw [if_pos rfl]
        generalize selectLoop os { c with errno := EINTR } = r at hend ⊢
        cases hend with
        | ready os' e' h => exact .ready os' e' (hfirst.trans h)
        | timeout os' e' h => exact .timeout os' e' (hfirst.trans h)
        | failed os' e' h => exact .failed os' e' (hfirst.trans h)
        | stalled e' h => exact .stalled e' (hfirst.trans h)
      · rw [if_neg he]
        exact .failed os e (firstSelect_cons (by simpa using he) os)

/-- The ways out of a wait: the descriptor is ready (at once when no time is
given), a timeout or a failed `select`, or still waiting. -/
inductive WaitEnd (waitSeconds : Nat) (c : Conn) : Outcome Conn Int → Prop
  | skip : waitSeconds = 0 → WaitEnd waitSeconds c (.ret 0 c)
  | ready (os e) : firstReady c.selects = true → selReadies c.selects = selReadies os + 1 →
      WaitEnd waitSeconds c (.ret 0 { c with selects := os, errno := e })
  | failed (os e) : waitSeconds ≠ 0 → firstReady c.selects = false → selReadies c.selects = selReadies os →
      os.length < c.selects.length → WaitEnd waitSeconds c (.ret (-1) { c with selects := os, errno := e })
  | stalled (e) : waitSeconds ≠ 0 → firstReady c.selects = false → selReadies c.selects = 0 →
      WaitEnd waitSeconds c (.stalled { c with selects := [], errno := e })

theorem ioTimeout_end (waitSeconds : Nat) (c : Conn) : WaitEnd waitSeconds c (ioTimeout waitSeconds c) := by
  unfold ioTimeout
  by_cases h : waitSeconds > 0
  · rw [if_pos h, Prog.bind_run]
    have hs : SelectEnd c.selects c (selectReady c) := selectLoop_end c.selects c
    generalize selectReady c = r at hs ⊢
    cases hs with
    | ready os e h1 h2 => exact .ready os e h1 h2
    | timeout os e h1 h2 h3 => exact .failed os ETIMEDOUT (by omega) h1 h2 h3
    | failed os e h1 h2 h3 => exact .failed os e (by omega) h1 h2 h3
    | stalled e h1 h2 => exact .stalled e (by omega) h1 h2
  · rw [if_neg h]
    exact .skip (by omega)

/-- The result of a wait for what `select` says. -/
inductive Waited (waitSeconds : Nat) (c : Conn) : Outcome Conn Int → Prop
  | ready (os e) : waitSeconds = 0 ∨ firstSelect c.selects = some .ready →
      Waited waitSeconds c (.ret 0 { c with selects := os, errno := e })
  | timeout (os) : waitSeconds ≠ 0 → firstSelect c.selects = some .timeout →
      Waited waitSeconds c (.ret (-1) { c with selects := os, errno := ETIMEDOUT })
  | failed (os e) : waitSeconds ≠ 0 → firstSelect c.selects = some (.error e) →
      Waited waitSeconds c (.ret (-1) { c with selects := os, errno := e })
  | stalled (e) : waitSeconds ≠ 0 → firstSelect c.selects = none →
      Waited waitSeconds c (.stalled { c with selects := [], errno := e })

theorem ioTimeout_waited (waitSeconds : Nat) (c : Conn) : Waited waitSeconds c (ioTimeout waitSeconds c) := by
  unfold ioTimeout
  by_cases h : waitSeconds > 0
  · have hne : waitSeconds ≠ 0 := by omega
    rw [if_pos h, Prog.bind_run]
    have hs : Selected c.selects c (selectReady c) := selectLoop_selected c.selects c
    generalize selectReady c = r at hs ⊢
    cases hs with
    | ready os e h1 => exact .ready os e (.inr h1)
    | timeout os e h1 => exact .timeout os hne h1
    | failed os e h1 => exact .failed os e hne h1
    | stalled e h1 => exact .stalled e hne h1
  · rw [if_neg h]
    exact .ready c.selects c.errno (.inl (by omega))

end CSocket
