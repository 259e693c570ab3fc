import StockBank.Lib.Code
import Mathlib.Data.List.TakeDrop
import Mathlib.Logic.Function.Basic

/-!
# Messages in a stream of bytes

A message begins with a header of a fixed size, which tells the size of the whole message.
The bytes of a stream come in pieces that need not end where a message ends: the receiver
reads into a buffer, first a header and then the rest of its message, and each time no more
than there is room for.

`receive` is such a receiver, with a handler of messages.  What it does depends on the bytes
alone and not on the pieces they came in (`receive_append`), and messages that were written one
after the other are handled one after the other (`receive_messages`), also where many streams
share the state of their handlers, and any of them may end (`exists_handled`).
-/

namespace Lib

/-- An append splits at a member in one of its parts. -/
theorem split_append {α : Type} {xs ys before after : List α} {a : α}
    (h : xs ++ ys = before ++ a :: after) :
    (∃ rest, xs = before ++ a :: rest ∧ after = rest ++ ys) ∨
      ∃ front, before = xs ++ front ∧ ys = front ++ a :: after := by
  rcases List.append_eq_append_iff.mp h with ⟨front, hbefore, hys⟩ | ⟨rest, hxs, hafter⟩
  · exact .inr ⟨front, hbefore, hys⟩
  · cases rest with
    | nil => exact .inr ⟨[], by rw [hxs, List.append_nil, List.append_nil], hafter.symm⟩
    | cons b rest =>
        obtain ⟨rfl, rfl⟩ := List.cons.inj hafter
        exact .inl ⟨rest, hxs, rfl⟩

/-- A format of messages. -/
structure Framing (ε : Type) where
  headerSize : ℕ
  headerSize_pos : 0 < headerSize
  /-- The size of the message with this header, or what is wrong with it. -/
  messageSize : List UInt8 → Except ε ℕ

namespace Framing

/-- A buffer that is not full. -/
structure Buffer where
  bytes : List UInt8
  limit : ℕ
  /-- What is read is a header. -/
  readHeader : Bool
  room : bytes.length < limit

/-- A connection reads until it is closed. -/
inductive Connection (ε : Type)
  | reading (buffer : Buffer)
  | closed (e : ε)

variable {ε σ : Type} (F : Framing ε) (handler : List UInt8 → Code ε σ Unit)

/-- Between two messages. -/
def Connection.start : Connection ε := .reading ⟨[], F.headerSize, true, F.headerSize_pos⟩

/-- The connection after some code has run. -/
def proceed : Except ε Unit × σ → Connection ε × σ
  | (.ok _, s) => (.start F, s)
  | (.error e, s) => (.closed e, s)

/-- What is done with a buffer that is full: with its header a message goes on, or is complete. -/
def fill (readHeader : Bool) (bytes : List UInt8) (s : σ) : Connection ε × σ :=
  if readHeader then
    match F.messageSize bytes with
    | .error e => (.closed e, s)
    | .ok n =>
      if h : bytes.length < n then (.reading ⟨bytes, n, false, h⟩, s)
      else proceed F ((handler bytes).exec s)
  else
    proceed F ((handler bytes).exec s)

/-- The stream that has come so far begins with these messages, and while the connection reads,
its buffer has the rest. -/
def Connection.Follows : Connection ε → List (List UInt8) → List UInt8 → Prop
  | .reading buffer, ms, stream => stream = ms.flatten ++ buffer.bytes
  | .closed _, ms, stream => ms.flatten <+: stream

theorem Connection.Follows.prepend {c : Connection ε} {ms : List (List UInt8)} {stream : List UInt8}
    (h : c.Follows ms stream) (done : List (List UInt8)) :
    c.Follows (done ++ ms) (done.flatten ++ stream) := by
  cases c with
  | reading buffer =>
      change _ = _
      rw [List.flatten_append, List.append_assoc, ← h.symm]
  | closed e =>
      change _ <+: _
      rw [List.flatten_append]
      exact (List.prefix_append_right_inj _).mpr h

/-- The stream ends, whatever the reason. -/
def Connection.close (e : ε) : Connection ε → Connection ε
  | .reading _ => .closed e
  | .closed e' => .closed e'

theorem Connection.Follows.close {c : Connection ε} {ms : List (List UInt8)} {stream : List UInt8}
    (h : c.Follows ms stream) (e : ε) : (c.close e).Follows ms stream := by
  cases c with
  | reading buffer => exact ⟨buffer.bytes, Eq.symm h⟩
  | closed e' => exact h

theorem exists_proceed (m : List UInt8) (r : Except ε Unit × σ) :
    ∃ c : Connection ε, proceed F r = (c, r.2) ∧ c.Follows [m] m := by
  obtain ⟨e | _, s⟩ := r
  · refine ⟨.closed e, rfl, [], ?_⟩
    rw [List.flatten_singleton, List.append_nil]
  · refine ⟨.start F, rfl, ?_⟩
    change m = [m].flatten ++ []
    rw [List.flatten_singleton, List.append_nil]

/-- A buffer that is full is a message, or there is nothing to handle. -/
theorem fill_cases (readHeader : Bool) (bytes : List UInt8) :
    (∃ c : Connection ε, c.Follows [] bytes ∧
      ∀ {σ : Type} (handler : List UInt8 → Code ε σ Unit) (s : σ),
        fill F handler readHeader bytes s = (c, s)) ∨
    ∀ {σ : Type} (handler : List UInt8 → Code ε σ Unit) (s : σ),
      fill F handler readHeader bytes s = proceed F ((handler bytes).exec s) := by
  cases readHeader with
  | false => exact .inr fun _ _ ↦ rfl
  | true =>
      cases hsize : F.messageSize bytes with
      | error e =>
          exact .inl ⟨.closed e, List.nil_prefix, fun _ _ ↦ by rw [fill, if_pos rfl, hsize]⟩
      | ok n =>
          by_cases h : bytes.length < n
          · refine .inl ⟨.reading ⟨bytes, n, false, h⟩, rfl, fun _ _ ↦ ?_⟩
            simp [fill, hsize, h]
          · refine .inr fun _ _ ↦ ?_
            simp [fill, hsize, h]

/-- A piece of the stream is received. -/
def receive : Connection ε × σ → List UInt8 → Connection ε × σ
  | (.closed e, s), _ => (.closed e, s)
  | (.reading buffer, s), bs =>
    if h : (buffer.bytes ++ bs).length < buffer.limit then
      (.reading { buffer with bytes := buffer.bytes ++ bs, room := h }, s)
    else
      receive (fill F handler buffer.readHeader
        (buffer.bytes ++ bs.take (buffer.limit - buffer.bytes.length)) s)
        (bs.drop (buffer.limit - buffer.bytes.length))
termination_by _ bs => bs.length
decreasing_by
  have := buffer.room
  rw [List.length_append] at h
  rw [List.length_drop]
  omega

theorem receive_closed (e : ε) (s : σ) (bs : List UInt8) :
    receive F handler (.closed e, s) bs = (.closed e, s) := by
  rw [receive]

/-- A piece that does not fill the buffer. -/
theorem receive_of_lt {buffer : Buffer} {bs : List UInt8}
    (h : (buffer.bytes ++ bs).length < buffer.limit) (s : σ) :
    receive F handler (.reading buffer, s) bs =
      (.reading { buffer with bytes := buffer.bytes ++ bs, room := h }, s) := by
  rw [receive, dif_pos h]

/-- A piece that fills the buffer, and what is left of it. -/
theorem receive_of_eq {buffer : Buffer} {bs : List UInt8}
    (h : (buffer.bytes ++ bs).length = buffer.limit) (s : σ) (rest : List UInt8) :
    receive F handler (.reading buffer, s) (bs ++ rest) =
      receive F handler (fill F handler buffer.readHeader (buffer.bytes ++ bs) s) rest := by
  have hlength : buffer.limit - buffer.bytes.length = bs.length := by
    rw [← h, List.length_append, Nat.add_sub_cancel_left]
  have hfull : ¬ (buffer.bytes ++ (bs ++ rest)).length < buffer.limit := by
    rw [← List.append_assoc, List.length_append, h]
    omega
  rw [receive, dif_neg hfull, hlength, List.take_left, List.drop_left]

theorem receive_nil (c : Connection ε × σ) : receive F handler c [] = c := by
  obtain ⟨buffer | e, s⟩ := c
  · rw [receive_of_lt F handler (by rw [List.append_nil]; exact buffer.room)]
    simp
  · exact receive_closed F handler e s []

/-- A piece fills a buffer, or it does not. -/
theorem fills_or_not (buffer : Buffer) (bs : List UInt8) :
    (buffer.bytes ++ bs).length < buffer.limit ∨
      ∃ bs₁ bs₂, bs = bs₁ ++ bs₂ ∧ bs₁ ≠ [] ∧ (buffer.bytes ++ bs₁).length = buffer.limit := by
  have hroom := buffer.room
  rcases Nat.lt_or_ge (buffer.bytes ++ bs).length buffer.limit with h | h
  · exact .inl h
  rw [List.length_append] at h
  have hlength : (bs.take (buffer.limit - buffer.bytes.length)).length =
      buffer.limit - buffer.bytes.length := by
    rw [List.length_take]
    omega
  refine .inr ⟨_, _, (List.take_append_drop (buffer.limit - buffer.bytes.length) bs).symm, ?_, ?_⟩
  · intro hnil
    rw [hnil, List.length_nil] at hlength
    omega
  · rw [List.length_append, hlength]
    omega

theorem length_lt_of_append {xs : List UInt8} (h : xs ≠ []) (ys : List UInt8) :
    ys.length < (xs ++ ys).length := by
  rw [List.length_append]
  exact Nat.lt_add_of_pos_left (List.length_pos_iff.mpr h)

/-- **Two pieces are received as one.** -/
theorem receive_append (c : Connection ε × σ) (xs ys : List UInt8) :
    receive F handler c (xs ++ ys) = receive F handler (receive F handler c xs) ys := by
  induction hn : xs.length using Nat.strongRecOn generalizing c xs with
  | ind n ih =>
    obtain ⟨buffer | e, s⟩ := c
    · rcases fills_or_not buffer xs with hxs | ⟨xs₁, xs₂, rfl, hne, hfull⟩
      · rw [receive_of_lt F handler hxs]
        rcases fills_or_not ⟨buffer.bytes ++ xs, buffer.limit, buffer.readHeader, hxs⟩ ys with
          hys | ⟨ys₁, ys₂, rfl, -, hfull⟩
        · rw [receive_of_lt F handler hys, receive_of_lt F handler (List.append_assoc .. ▸ hys)]
          simp
        · rw [receive_of_eq F handler hfull, ← List.append_assoc,
            receive_of_eq F handler (List.append_assoc .. ▸ hfull), List.append_assoc]
      · rw [receive_of_eq F handler hfull, List.append_assoc, receive_of_eq F handler hfull]
        exact ih xs₂.length (hn ▸ length_lt_of_append hne xs₂) _ xs₂ rfl
    · rw [receive_closed, receive_closed, receive_closed]

/-- What is received is these messages, one after the other. -/
structure Cuts (c : Connection ε) (s : σ) (bs : List UInt8) (ms : List (List UInt8)) : Prop where
  state : (receive F handler (c, s) bs).2 = ms.foldl (fun s m ↦ ((handler m).exec s).2) s
  follows : ∀ {done stream}, c.Follows done stream →
    (receive F handler (c, s) bs).1.Follows (done ++ ms) (stream ++ bs)
  /-- A message whose handler raises is the last one. -/
  stops : ∀ {before m after e}, ms = before ++ m :: after →
    ((handler m).exec (before.foldl (fun s m ↦ ((handler m).exec s).2) s)).1 = .error e →
    after = [] ∧ (receive F handler (c, s) bs).1 = .closed e
  closed : ∀ {e}, c = .closed e → ms = []

/-- Bytes that complete no message. -/
theorem cuts_nil {c : Connection ε} {s : σ} {bs : List UInt8}
    (hstate : (receive F handler (c, s) bs).2 = s)
    (hfollows : ∀ {done stream}, c.Follows done stream →
      (receive F handler (c, s) bs).1.Follows done (stream ++ bs)) : Cuts F handler c s bs [] where
  state := hstate
  follows h := by
    rw [List.append_nil]
    exact hfollows h
  stops h := absurd h.symm (List.append_ne_nil_of_right_ne_nil _ (List.cons_ne_nil _ _))
  closed _ := rfl

/-- **A connection cuts its stream into messages**, and what it does is to handle them.  Nothing is
lost and nothing is made up, until it is closed. -/
theorem exists_messages (c : Connection ε) (s : σ) (bs : List UInt8) :
    ∃ ms, Cuts F handler c s bs ms := by
  induction hn : bs.length using Nat.strongRecOn generalizing c s bs with
  | ind n ih =>
    cases c with
    | closed e =>
      have hclosed := receive_closed F handler e s bs
      refine ⟨[], cuts_nil F handler (congrArg Prod.snd hclosed) fun {done stream} h ↦ ?_⟩
      rw [hclosed]
      exact List.IsPrefix.trans h (List.prefix_append stream bs)
    | reading buffer =>
      rcases fills_or_not buffer bs with hlt | ⟨bs₁, bs₂, rfl, hne, hfull⟩
      · have hlt' := receive_of_lt F handler hlt s
        refine ⟨[], cuts_nil F handler (congrArg Prod.snd hlt') fun {done stream} h ↦ ?_⟩
        change stream = _ at h
        rw [hlt', h, List.append_assoc]
        rfl
      have hreceive := receive_of_eq F handler hfull s bs₂
      have hlen := hn ▸ length_lt_of_append hne bs₂
      -- what is in the buffer follows the messages before it
      have hbuffer : ∀ {c₁ : Connection ε} {ms₁ done stream},
          c₁.Follows ms₁ (buffer.bytes ++ bs₁) → (Connection.reading buffer : Connection ε).Follows done
            stream → c₁.Follows (done ++ ms₁) (stream ++ bs₁) := by
        intro c₁ ms₁ done stream h₁ h
        change stream = _ at h
        rw [h, List.append_assoc]
        exact h₁.prepend done
      rcases fill_cases F buffer.readHeader (buffer.bytes ++ bs₁) with ⟨c₁, h₁, hfill⟩ | hfill
      · rw [hfill] at hreceive
        obtain ⟨ms, hms⟩ := ih bs₂.length hlen c₁ s bs₂ rfl
        refine ⟨ms, ?_, fun h ↦ ?_, fun hsplit he ↦ ?_, fun h ↦ nomatch h⟩ <;> rw [hreceive]
        · exact hms.state
        · have hnext := hms.follows (hbuffer h₁ h)
          rwa [List.append_nil, List.append_assoc] at hnext
        · exact hms.stops hsplit he
      · obtain ⟨c₁, hproceed, h₁⟩ :=
          exists_proceed F (buffer.bytes ++ bs₁) ((handler (buffer.bytes ++ bs₁)).exec s)
        rw [hfill, hproceed] at hreceive
        obtain ⟨ms, hms⟩ := ih bs₂.length hlen c₁ _ bs₂ rfl
        refine ⟨(buffer.bytes ++ bs₁) :: ms, ?_, fun h ↦ ?_, fun {before m after e} hsplit he ↦ ?_,
          fun h ↦ nomatch h⟩ <;> rw [hreceive]
        · exact hms.state
        · have hnext := hms.follows (hbuffer h₁ h)
          rwa [List.append_assoc, List.append_assoc] at hnext
        · cases before with
          | nil =>
              obtain ⟨rfl, rfl⟩ := List.cons.inj hsplit
              have hclosed : c₁ = .closed e := by
                rw [List.foldl_nil] at he
                rcases hexec : (handler (buffer.bytes ++ bs₁)).exec s with ⟨e' | _, s'⟩
                · rw [hexec] at he hproceed
                  obtain rfl := Except.error.inj he
                  exact (congrArg Prod.fst hproceed).symm
                · rw [hexec] at he
                  cases he
              refine ⟨hms.closed hclosed, ?_⟩
              rw [hclosed, receive_closed]
          | cons m' before =>
              obtain ⟨rfl, hrest⟩ := List.cons.inj hsplit
              exact hms.stops hrest he

/-- A message: its header tells its size. -/
def IsMessage (m : List UInt8) : Prop :=
  F.headerSize ≤ m.length ∧ F.messageSize (m.take F.headerSize) = .ok m.length

variable {F}

/-- A message is handled when it is complete. -/
theorem receive_message {m : List UInt8} (hm : F.IsMessage m) (s : σ) :
    receive F handler (.start F, s) m = proceed F ((handler m).exec s) := by
  obtain ⟨hle, hsize⟩ := hm
  have hheader : ([] ++ m.take F.headerSize).length = F.headerSize := by
    rw [List.nil_append, List.length_take, Nat.min_eq_left hle]
  conv_lhs => rw [← List.take_append_drop F.headerSize m]
  rw [Connection.start, receive_of_eq F handler hheader, List.nil_append, fill, if_pos rfl, hsize]
  rw [List.nil_append] at hheader
  dsimp only
  split
  · rename_i hlt
    have hfull : ((⟨m.take F.headerSize, m.length, false, hlt⟩ : Buffer).bytes ++
        m.drop F.headerSize).length = m.length := by
      rw [List.take_append_drop]
    have hbody := receive_of_eq F handler hfull s []
    rw [List.append_nil] at hbody
    rw [hbody, receive_nil, List.take_append_drop]
    rfl
  · rename_i hlt
    have hall : m.length ≤ F.headerSize := by omega
    rw [List.take_of_length_le hall, List.drop_of_length_le hall, receive_nil]

/-- **Messages that were written one after the other** are handled one after the other, until one
of them closes the connection. -/
theorem receive_messages {ms : List (List UInt8)} (hms : ∀ m ∈ ms, F.IsMessage m) (s : σ) :
    receive F handler (.start F, s) ms.flatten = proceed F ((ms.forM handler).exec s) := by
  induction ms generalizing s with
  | nil => exact receive_nil F handler _
  | cons m ms ih =>
      have hforM : ((m :: ms).forM handler).exec s =
          (handler m >>= fun _ ↦ ms.forM handler).exec s := rfl
      rw [List.flatten_cons, receive_append, receive_message handler (hms m List.mem_cons_self),
        hforM, Code.exec_bind]
      rcases (handler m).exec s with ⟨e | _, s'⟩
      · exact receive_closed F handler e s' _
      · exact ih (fun m hm ↦ hms m (List.mem_cons_of_mem _ hm)) s'

/-! ## What a piece completes -/

/-- The messages, one after the other. -/
def log (m : List UInt8) : Code ε (List (List UInt8)) Unit := modify (· ++ [m])

theorem exec_forM_log (ms l : List (List UInt8)) :
    Code.exec (ms.forM log : Code ε _ Unit) l = (.ok (), l ++ ms) := by
  induction ms generalizing l with
  | nil =>
      rw [List.append_nil]
      rfl
  | cons m ms ih =>
      have hcons : Code.exec ((m :: ms).forM log : Code ε _ Unit) l =
          Code.exec (ms.forM log : Code ε _ Unit) (l ++ [m]) := rfl
      rw [hcons, ih, List.append_assoc, List.singleton_append]

variable (F)

/-- The bytes complete these messages, and take the connection from `c` to `c'`. -/
def Completes (c : Connection ε) (bs : List UInt8) (c' : Connection ε)
    (ms : List (List UInt8)) : Prop :=
  ∀ l, receive F log (c, l) bs = (c', l ++ ms)

variable {F}

/-- **A handler sees the messages alone.**  What a piece does, when none of its messages closes the
connection, is to handle the messages that it completes. -/
theorem exists_completes (c : Connection ε) (bs : List UInt8) :
    ∃ c' ms, F.Completes c bs c' ms ∧ ∀ {σ : Type} (handler : List UInt8 → Code ε σ Unit) {s s' : σ},
      (ms.forM handler).exec s = (.ok (), s') → receive F handler (c, s) bs = (c', s') := by
  induction hn : bs.length using Nat.strongRecOn generalizing c bs with
  | ind n ih =>
    have hnone : ∀ {c' : Connection ε},
        (∀ {σ : Type} (handler : List UInt8 → Code ε σ Unit) (s : σ),
          receive F handler (c, s) bs = (c', s)) →
        ∃ c' ms, F.Completes c bs c' ms ∧ ∀ {σ : Type} (handler : List UInt8 → Code ε σ Unit)
          {s s' : σ}, (ms.forM handler).exec s = (.ok (), s') →
            receive F handler (c, s) bs = (c', s') := by
      intro c' h
      refine ⟨c', [], fun l ↦ by rw [h, List.append_nil], fun handler s s' hexec ↦ ?_⟩
      cases hexec
      exact h handler s
    cases c with
    | closed e => exact hnone fun handler s ↦ receive_closed F handler e s bs
    | reading buffer =>
      rcases fills_or_not buffer bs with hlt | ⟨bs₁, bs₂, rfl, hne, hfull⟩
      · exact hnone fun handler s ↦ receive_of_lt F handler hlt s
      have hlen := hn ▸ length_lt_of_append hne bs₂
      rcases fill_cases F buffer.readHeader (buffer.bytes ++ bs₁) with ⟨c₁, -, hfill⟩ | hfill
      · obtain ⟨c', ms, hlog, hhandler⟩ := ih bs₂.length hlen c₁ bs₂ rfl
        refine ⟨c', ms, fun l ↦ ?_, fun handler s s' hexec ↦ ?_⟩
        · rw [receive_of_eq F log hfull, hfill]
          exact hlog l
        · rw [receive_of_eq F handler hfull, hfill]
          exact hhandler handler hexec
      · obtain ⟨c', ms, hlog, hhandler⟩ := ih bs₂.length hlen (.start F) bs₂ rfl
        refine ⟨c', (buffer.bytes ++ bs₁) :: ms, fun l ↦ ?_, fun handler s s' hexec ↦ ?_⟩
        · rw [receive_of_eq F log hfull, hfill, ← List.singleton_append, ← List.append_assoc]
          exact hlog _
        · have hcons : (((buffer.bytes ++ bs₁) :: ms).forM handler).exec s =
              (handler (buffer.bytes ++ bs₁) >>= fun _ ↦ ms.forM handler).exec s := rfl
          rw [hcons, Code.exec_bind] at hexec
          rw [receive_of_eq F handler hfull, hfill]
          rcases hm : (handler (buffer.bytes ++ bs₁)).exec s with ⟨e | _, s₁⟩ <;> rw [hm] at hexec
          · cases hexec
          · exact hhandler handler hexec

/-- Bytes complete what they complete, and nothing else. -/
theorem Completes.unique {c c₁ c₂ : Connection ε} {bs : List UInt8} {ms₁ ms₂ : List (List UInt8)}
    (h₁ : F.Completes c bs c₁ ms₁) (h₂ : F.Completes c bs c₂ ms₂) : c₁ = c₂ ∧ ms₁ = ms₂ :=
  Prod.mk.inj ((h₁ []).symm.trans (h₂ []))

/-- No bytes complete nothing. -/
theorem completes_nil (c : Connection ε) : F.Completes c [] c [] := by
  intro l
  rw [receive_nil, List.append_nil]

theorem Completes.append {c c' c'' : Connection ε} {xs ys : List UInt8} {ms ms' : List (List UInt8)}
    (h : F.Completes c xs c' ms) (h' : F.Completes c' ys c'' ms') :
    F.Completes c (xs ++ ys) c'' (ms ++ ms') := by
  intro l
  rw [receive_append, h, h', List.append_assoc]

theorem Completes.receive {c c' : Connection ε} {bs : List UInt8} {ms : List (List UInt8)}
    (h : F.Completes c bs c' ms) {s s' : σ} (hexec : (ms.forM handler).exec s = (.ok (), s')) :
    Framing.receive F handler (c, s) bs = (c', s') := by
  obtain ⟨c₁, ms₁, h₁, hhandler⟩ := exists_completes (F := F) c bs
  obtain ⟨rfl, rfl⟩ := h.unique h₁
  exact hhandler handler hexec

/-- A part of the bytes completes some of the messages, and the rest completes the others. -/
theorem Completes.split {α : Type} {frame : α → List UInt8} {c c'' : Connection ε}
    {xs ys : List UInt8} {as : List α} (h : F.Completes c (xs ++ ys) c'' (as.map frame)) :
    ∃ c' as₁ as₂, as = as₁ ++ as₂ ∧ F.Completes c xs c' (as₁.map frame) ∧
      F.Completes c' ys c'' (as₂.map frame) := by
  obtain ⟨c', ms₁, h₁, -⟩ := exists_completes (F := F) c xs
  obtain ⟨c₂, ms₂, h₂, -⟩ := exists_completes (F := F) c' ys
  obtain ⟨rfl, hms⟩ := (h₁.append h₂).unique h
  obtain ⟨as₁, as₂, rfl, rfl, rfl⟩ := List.map_eq_append_iff.mp hms.symm
  exact ⟨c', as₁, as₂, rfl, h₁, h₂⟩

/-- Messages complete themselves. -/
theorem completes_flatten {ms : List (List UInt8)} (hms : ∀ m ∈ ms, F.IsMessage m) :
    F.Completes (.start F) ms.flatten (.start F) ms := by
  intro l
  rw [receive_messages log hms, exec_forM_log]
  rfl

/-! ## Many streams -/

section

variable {κ α : Type} {handlers : κ → List UInt8 → Code ε σ Unit} {frame : α → List UInt8}
  {A : κ → α → Prop} {I : List (κ × α) → σ → Prop}

/-- Messages of one stream, one after the other. -/
theorem exec_forM_frame
    (hI : ∀ {done s k a}, A k a → I done s →
      ∃ s', (handlers k (frame a)).exec s = (.ok (), s') ∧ I (done ++ [(k, a)]) s')
    {k : κ} {as : List α} (has : ∀ a ∈ as, A k a) {done : List (κ × α)} {s : σ} (hs : I done s) :
    ∃ s', ((as.map frame).forM (handlers k)).exec s = (.ok (), s') ∧
      I (done ++ as.map (Prod.mk k)) s' := by
  induction as generalizing done s with
  | nil =>
      refine ⟨s, rfl, ?_⟩
      rwa [List.map_nil, List.append_nil]
  | cons a as ih =>
      obtain ⟨s₁, hexec, hs₁⟩ := hI (has a List.mem_cons_self) hs
      obtain ⟨s', hforM, hs'⟩ := ih (fun a ha ↦ has a (List.mem_cons_of_mem _ ha)) hs₁
      rw [List.append_assoc] at hs'
      refine ⟨s', ?_, hs'⟩
      change (handlers k (frame a) >>= fun _ ↦ (as.map frame).forM (handlers k)).exec s = _
      rw [Code.exec_bind_of_ok hexec, hforM]

variable [DecidableEq κ]

/-- What is of `k`, in its order. -/
def ofKey (k : κ) (l : List (κ × α)) : List α :=
  l.filterMap fun p ↦ if p.1 = k then some p.2 else none

theorem ofKey_cons_self (k : κ) (a : α) (l : List (κ × α)) : ofKey k ((k, a) :: l) = a :: ofKey k l :=
  List.filterMap_cons_some (if_pos rfl)

theorem ofKey_cons_of_ne {k k' : κ} (h : k' ≠ k) (a : α) (l : List (κ × α)) :
    ofKey k ((k', a) :: l) = ofKey k l :=
  List.filterMap_cons_none (if_neg h)

theorem ofKey_append (k : κ) (l l' : List (κ × α)) : ofKey k (l ++ l') = ofKey k l ++ ofKey k l' :=
  List.filterMap_append

theorem ofKey_map_self (k : κ) (as : List α) : ofKey k (as.map (Prod.mk k)) = as := by
  induction as with
  | nil => rfl
  | cons a as ih => rw [List.map_cons, ofKey_cons_self, ih]

theorem ofKey_map_of_ne {k k' : κ} (h : k' ≠ k) (as : List α) :
    ofKey k (as.map (Prod.mk k')) = [] := by
  induction as with
  | nil => rfl
  | cons a as ih => rw [List.map_cons, ofKey_cons_of_ne h, ih]

/-- What happens to the streams. -/
inductive StreamEvent (κ ε : Type)
  | piece (k : κ) (bytes : List UInt8)
  | close (k : κ) (e : ε)

/-- What an event brings of a stream. -/
def StreamEvent.bytesOf (k : κ) : StreamEvent κ ε → List UInt8
  | .piece k' bytes => if k' = k then bytes else []
  | .close _ _ => []

variable (F handlers)

/-- One of the streams goes on, or ends.  The handlers of all streams share their state. -/
def step (s : (κ → Connection ε) × σ) : StreamEvent κ ε → (κ → Connection ε) × σ
  | .piece k bytes =>
    let r := receive F (handlers k) (s.1 k, s.2) bytes
    (Function.update s.1 k r.1, r.2)
  | .close k e => (Function.update s.1 k ((s.1 k).close e), s.2)

variable {F handlers}

/-- A connection that is closed completes nothing. -/
theorem Completes.ne_closed {c : Connection ε} {bs : List UInt8} {ms : List (List UInt8)}
    (h : F.Completes c bs (.start F) ms) (e : ε) : c ≠ .closed e := by
  rintro rfl
  have hclosed := h []
  rw [receive_closed] at hclosed
  cases congrArg Prod.fst hclosed

/-- A stream has ended, or what is still to come of it completes the messages that are to do. -/
def Pending (F : Framing ε) (frame : α → List UInt8) (rest : κ → List UInt8)
    (events : List (StreamEvent κ ε)) (c : κ → Connection ε) (todo : κ → List α) (k : κ) : Prop :=
  (∃ e, c k = .closed e) ∨ F.Completes (c k)
    (events.flatMap (StreamEvent.bytesOf k) ++ rest k) (.start F) ((todo k).map frame)

/-- What happens to one stream leaves the others pending. -/
theorem Pending.update {rest : κ → List UInt8} {event : StreamEvent κ ε}
    {events : List (StreamEvent κ ε)} {c : κ → Connection ε} {todo : κ → List α} {k : κ}
    (hevents : ∀ k', Pending F frame rest (event :: events) c todo k')
    (hother : ∀ k', k' ≠ k → event.bytesOf k' = []) {c₁ : Connection ε} (as : List α)
    (hk : (∃ e, c₁ = .closed e) ∨ F.Completes c₁ (events.flatMap (StreamEvent.bytesOf k) ++ rest k)
      (.start F) (as.map frame)) (k' : κ) :
    Pending F frame rest events (Function.update c k c₁) (Function.update todo k as) k' := by
  by_cases hkk : k' = k
  · subst hkk
    rwa [Pending, Function.update_self, Function.update_self]
  · have hold := hevents k'
    rw [Pending, List.flatMap_cons, hother k' hkk, List.nil_append] at hold
    rwa [Pending, Function.update_of_ne hkk, Function.update_of_ne hkk]

/-- One event: some messages of its stream are handled, and those to do are the others. -/
theorem exists_step_handled
    (hI : ∀ {done s k a}, A k a → I done s →
      ∃ s', (handlers k (frame a)).exec s = (.ok (), s') ∧ I (done ++ [(k, a)]) s')
    {todo : κ → List α} (htodo : ∀ k, ∀ a ∈ todo k, A k a) {rest : κ → List UInt8}
    {event : StreamEvent κ ε} {events : List (StreamEvent κ ε)} {c : κ → Connection ε}
    (hevents : ∀ k, Pending F frame rest (event :: events) c todo k)
    {done : List (κ × α)} {s : σ} (hs : I done s) :
    ∃ now todo', I (done ++ now) (step F handlers (c, s) event).2 ∧
      (∀ k, todo k = ofKey k now ++ todo' k) ∧
      (∀ k, Pending F frame rest events (step F handlers (c, s) event).1 todo' k) ∧
      ∀ k, (∀ e, c k ≠ .closed e) → (∀ e, event ≠ .close k e) →
        F.Completes (c k) (event.bytesOf k) ((step F handlers (c, s) event).1 k)
          ((ofKey k now).map frame) := by
  have hnone : ∀ {k c₁}, (∀ k', k' ≠ k → event.bytesOf k' = []) → (∃ e, c₁ = .closed e) →
      ∀ k', Pending F frame rest events (Function.update c k c₁) todo k' := by
    intro k c₁ hother hclosed k'
    have hnext := Pending.update hevents hother (todo k) (.inl hclosed) k'
    rwa [Function.update_eq_self] at hnext
  -- the streams that the event is not of
  have hidle : ∀ {k k' : κ} {c₁ : Connection ε}, (∀ k', k' ≠ k → event.bytesOf k' = []) →
      k' ≠ k → F.Completes (c k') (event.bytesOf k') (Function.update c k c₁ k') [] := by
    intro k k' c₁ hother hkk
    rw [hother k' hkk, Function.update_of_ne hkk]
    exact completes_nil (c k')
  cases event with
  | close k e =>
      have hother : ∀ k', k' ≠ k → (StreamEvent.close k e).bytesOf k' = [] := fun _ _ ↦ rfl
      have hclosed : ∃ e', (c k).close e = .closed e' := by
        cases c k with
        | reading buffer => exact ⟨e, rfl⟩
        | closed e' => exact ⟨e', rfl⟩
      refine ⟨[], todo, by rwa [List.append_nil], fun _ ↦ rfl, hnone hother hclosed, ?_⟩
      intro k' hopen hno
      refine hidle hother ?_
      rintro rfl
      exact hno e rfl
  | piece k bs =>
      have hother : ∀ k', k' ≠ k → (StreamEvent.piece k bs : StreamEvent κ ε).bytesOf k' = [] :=
        fun k' hkk ↦ if_neg (Ne.symm hkk)
      have hbytes : (StreamEvent.piece k bs : StreamEvent κ ε).bytesOf k = bs := if_pos rfl
      by_cases hclosed : ∃ e, c k = .closed e
      · -- nothing is read of a stream that has ended
        obtain ⟨e, he⟩ := hclosed
        have hreceive : receive F (handlers k) (c k, s) bs = (c k, s) := by
          rw [he, receive_closed]
        rw [step, hreceive]
        refine ⟨[], todo, by rwa [List.append_nil], fun _ ↦ rfl, hnone hother ⟨e, he⟩, ?_⟩
        intro k' hopen _
        refine hidle hother ?_
        rintro rfl
        exact hopen e he
      · have hk := (hevents k).resolve_left hclosed
        rw [List.flatMap_cons, hbytes, List.append_assoc] at hk
        obtain ⟨c₁, as₁, as₂, has, h₁, h₂⟩ := hk.split
        have hnow : ∀ a ∈ as₁, A k a := fun a ha ↦ htodo k a (has ▸ List.mem_append_left as₂ ha)
        obtain ⟨s₁, hforM, hs₁⟩ := exec_forM_frame hI hnow hs
        rw [step, h₁.receive (handlers k) hforM]
        refine ⟨as₁.map (Prod.mk k), Function.update todo k as₂, hs₁, fun k' ↦ ?_,
          Pending.update hevents hother as₂ (.inr h₂), fun k' hopen _ ↦ ?_⟩ <;> by_cases hkk : k' = k
        · subst hkk
          rw [ofKey_map_self, Function.update_self, has]
        · rw [ofKey_map_of_ne (Ne.symm hkk), Function.update_of_ne hkk, List.nil_append]
        · subst hkk
          change F.Completes (c k') _ (Function.update c k' c₁ k') _
          rwa [ofKey_map_self, hbytes, Function.update_self]
        · rw [ofKey_map_of_ne (Ne.symm hkk)]
          exact hidle hother hkk

/-- A connection that can go on to the end of its stream is not closed. -/
theorem Completes.ne_closed_of_append {c c' : Connection ε} {xs ys : List UInt8}
    {ms ms' : List (List UInt8)} (h : F.Completes c xs c' ms)
    (h' : F.Completes c (xs ++ ys) (.start F) ms') (e : ε) : c' ≠ .closed e := by
  obtain ⟨c'', ms'', hys, -⟩ := exists_completes (F := F) c' ys
  obtain ⟨rfl, -⟩ := (h.append hys).unique h'
  exact hys.ne_closed e

/-- **The messages of many streams**, in pieces that come in any order, are handled in an order
that agrees with that of each stream: those that what has come of it completes or, where a stream
ends, a first part.  Here `I` is what handlers keep, of the messages that they have handled, and
`rest` is what has not come. -/
theorem exists_handled
    (hI : ∀ {done s k a}, A k a → I done s →
      ∃ s', (handlers k (frame a)).exec s = (.ok (), s') ∧ I (done ++ [(k, a)]) s')
    {todo : κ → List α} (htodo : ∀ k, ∀ a ∈ todo k, A k a) {rest : κ → List UInt8}
    {events : List (StreamEvent κ ε)} {c : κ → Connection ε}
    (hevents : ∀ k, Pending F frame rest events c todo k)
    {done : List (κ × α)} {s : σ} (hs : I done s) :
    ∃ handled, I (done ++ handled) (events.foldl (step F handlers) (c, s)).2 ∧
      (∀ k, ofKey k handled <+: todo k) ∧
      ∀ k, (∀ e, c k ≠ .closed e) → (∀ e, .close k e ∉ events) →
        F.Completes (c k) (events.flatMap (StreamEvent.bytesOf k))
          ((events.foldl (step F handlers) (c, s)).1 k) ((ofKey k handled).map frame) := by
  induction events generalizing todo c done s with
  | nil =>
      refine ⟨[], by rwa [List.append_nil], fun k ↦ List.nil_prefix, fun k _ _ ↦ ?_⟩
      exact completes_nil (c k)
  | cons event events ih =>
      obtain ⟨now, todo', hnow, hsplit, hpending, hcompletes⟩ :=
        exists_step_handled hI htodo hevents hs
      have htodo' : ∀ k, ∀ a ∈ todo' k, A k a := fun k a ha ↦
        htodo k a (hsplit k ▸ List.mem_append_right (ofKey k now) ha)
      obtain ⟨handled, hI', hfront, hlater⟩ := ih htodo' hpending hnow
      refine ⟨now ++ handled, List.append_assoc .. ▸ hI', fun k ↦ ?_, fun k hopen hno ↦ ?_⟩
      · rw [hsplit, ofKey_append]
        exact (List.prefix_append_right_inj _).mpr (hfront k)
      · have hk : ∀ e, event ≠ .close k e := fun e he ↦ hno e (he ▸ List.mem_cons_self)
        have hfirst := hcompletes k hopen hk
        have hall := (hevents k).resolve_left fun ⟨e, he⟩ ↦ hopen e he
        rw [List.flatMap_cons, List.append_assoc] at hall
        have hnext := hlater k (hfirst.ne_closed_of_append hall) fun e he ↦
          hno e (List.mem_cons_of_mem event he)
        rw [List.flatMap_cons, ofKey_append, List.map_append]
        exact hfirst.append hnext

end

end Framing

end Lib
