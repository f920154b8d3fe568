import Rumprun.Lib.MessageStream
import Rumprun.Xen.XenbusWrite

/-! # Messages cut into writes

However the bytes of some messages are cut into writes, the device finds the same messages. What it
forwards of a message is all that is in the buffer, though; and the bytes behind a refused message are
thrown away. -/

namespace Rumprun.Xen
open MessageStream List

/-! ## Well-formed messages -/

structure XsMessage where
  type : UInt32
  reqId : UInt32
  txId : UInt32
  payload : List UInt8
  fits : payload.length ≤ xenstorePayloadMax

namespace XsMessage
variable (m : XsMessage)

def header : XsdSockmsg :=
  { type := m.type.toNat, reqId := m.reqId.toNat, txId := m.txId.toNat, len := m.payload.length }

def headerBytes : List UInt8 :=
  put32 m.type.toNat ++ put32 m.reqId.toNat ++ put32 m.txId.toNat ++ put32 m.payload.length

def encode : List UInt8 := m.headerBytes ++ m.payload

end XsMessage
open XsMessage

theorem get32_put32 {n : Nat} (small : n < 4294967296) : get32 (put32 n) = n := by
  simp only [get32, put32, foldr, UInt8.toNat_ofNat']
  omega

namespace XsMessage
variable {m : XsMessage}

theorem length_headerBytes : m.headerBytes.length = sockmsgSize := rfl

theorem length_encode : m.encode.length = sockmsgSize + m.payload.length := by
  rw [encode, length_append, length_headerBytes]

theorem encode_le_bufferSize : m.encode.length ≤ bufferSize := by
  have fits := m.fits
  rw [length_encode, bufferSize]
  omega

theorem sockmsg_headerBytes (rest : List UInt8) : sockmsg (m.headerBytes ++ rest) = m.header := by
  have fits : m.payload.length < 4294967296 := by
    have small := m.fits
    rw [xenstorePayloadMax] at small
    omega
  have type := get32_put32 m.type.toNat_lt
  have reqId := get32_put32 m.reqId.toNat_lt
  have txId := get32_put32 m.txId.toNat_lt
  have len := get32_put32 fits
  simp only [sockmsg, headerBytes, header, XsdSockmsg.mk.injEq]
  exact ⟨type, reqId, txId, len⟩

theorem packetlen_headerBytes (rest : List UInt8) :
    XbDev.packetlen (m.headerBytes ++ rest) = m.encode.length := by
  rw [XbDev.packetlen, sockmsg_headerBytes, length_encode, header, add_comm]

theorem drop_encode (rest : List UInt8) : (m.encode ++ rest).drop m.encode.length = rest := drop_left

end XsMessage

theorem request_used (places : Nat → XbPlace) (u : XbUser) (msg : XsdSockmsg)
    (payload behind : List UInt8) :
    request places u msg payload (payload ++ behind) = match request places u msg payload payload with
      | .error what => .error what
      | .ok (after, req) =>
        .ok (after, if (requestKind msg.type).forwards then
          { req with payload := req.payload ++ behind } else req) := by
  unfold request
  cases kind : requestKind msg.type with
  | plain =>
    by_cases unknown : msg.txId ≠ 0 ∧ msg.txId ∉ u.transactions
    · simp only [if_pos unknown]
    · simp [if_neg unknown, RequestKind.forwards]
  | transactionStart =>
    by_cases nested : msg.txId ≠ 0
    · simp only [if_pos nested]
    · simp [if_neg nested, RequestKind.forwards]
  | transactionEnd =>
    by_cases zero : msg.txId = 0
    · simp only [if_pos zero]
    · by_cases unknown : msg.txId ∉ u.transactions
      · simp only [if_neg zero, if_pos unknown]
      · simp [if_neg zero, if_neg unknown, RequestKind.forwards]
  | watch =>
    by_cases inside : msg.txId ≠ 0
    · simp only [if_pos inside]
    · simp only [if_neg inside]
      cases watchMessageParse payload with
      | none | some => rfl
  | unwatch =>
    by_cases inside : msg.txId ≠ 0
    · simp only [if_pos inside]
    · simp only [if_neg inside]
      cases watchMessageParse payload with
      | none => rfl
      | some strings =>
        simp only
        cases u.watches.find? (isVisibleWatch strings.1 strings.2) with
        | none | some => rfl
  | unknown => rfl

namespace XbDev
variable {places : Nat → XbPlace} {s r : XbDev} {m : XsMessage} {behind : List UInt8}

def accept (s : XbDev) (m : XsMessage) (u : XbUser) (req : XbRequest) (behind : List UInt8) : XbDev :=
  { s with
    du := u
    handed := s.handed ++ [if (requestKind m.type.toNat).forwards then
      { req with payload := req.payload ++ behind } else req] }

theorem sockmsg_buffer (buffer : s.wbuf = m.encode ++ behind) : sockmsg s.wbuf = m.header := by
  rw [buffer, encode, append_assoc, sockmsg_headerBytes]

theorem packetlen_buffer (buffer : s.wbuf = m.encode ++ behind) :
    packetlen s.wbuf = m.encode.length := by
  rw [buffer, encode, append_assoc, packetlen_headerBytes]
  rfl

theorem processRequest_buffer (buffer : s.wbuf = m.encode ++ behind) :
    s.processRequest places = match request places s.du m.header m.payload m.payload with
      | .error what => (s.wtrouble what, false)
      | .ok (u, req) => (s.accept m u req behind, true) := by
  have used : s.wbuf.drop sockmsgSize = m.payload ++ behind := by
    rw [buffer, encode, append_assoc, ← m.length_headerBytes, drop_left]
  have payload : (m.payload ++ behind).take m.header.len = m.payload := take_left
  simp only [processRequest, used, sockmsg_buffer buffer, payload, request_used]
  cases request places s.du m.header m.payload m.payload with
  | error | ok => rfl

variable (places) in
theorem processBuffer_whole (buffer : s.wbuf = m.encode ++ behind) (turns : Nat) :
    s.processBuffer places (turns + 1) = match request places s.du m.header m.payload m.payload with
      | .error what => (s.wtrouble what, false)
      | .ok (u, req) =>
        processBuffer places turns { s.accept m u req behind with wbuf := behind } := by
  have size : s.wbuf.length = m.encode.length + behind.length := by
    rw [buffer, length_append]
  have header := length_encode (m := m)
  have fits : ¬ xenstorePayloadMax < (sockmsg s.wbuf).len := by
    rw [sockmsg_buffer buffer]
    exact not_lt.mpr m.fits
  rw [processBuffer, if_neg (by omega), if_neg fits, packetlen_buffer buffer, if_neg (by omega),
    processRequest_buffer buffer]
  cases request places s.du m.header m.payload m.payload with
  | error what => simp [wtrouble]
  | ok result =>
    have full : s.wbuf ≠ [] := by
      intro empty
      rw [empty, length_nil] at size
      simp only [sockmsgSize] at header
      omega
    have rest : s.wbuf.drop m.encode.length = behind := by rw [buffer, drop_encode]
    simp [accept, full, rest]

theorem processBuffer_part {h : Nat} (part : h < m.encode.length) (buffer : s.wbuf = m.encode.take h)
    (turns : Nat) : s.processBuffer places turns = (s, true) := by
  have size : s.wbuf.length = h := by rw [buffer, length_take]; omega
  cases turns with
  | zero => rfl
  | succ turns =>
    by_cases short : h < sockmsgSize
    · rw [processBuffer, if_pos (by omega)]
    · have starts : s.wbuf = m.headerBytes ++ m.payload.take (h - sockmsgSize) := by
        rw [buffer, encode, take_append, m.length_headerBytes,
          take_of_length_le (by rw [m.length_headerBytes]; omega)]
      have fits : ¬ xenstorePayloadMax < (sockmsg s.wbuf).len := by
        rw [starts, sockmsg_headerBytes]
        exact not_lt.mpr m.fits
      have len : packetlen s.wbuf = m.encode.length := by
        rw [starts, packetlen_headerBytes]
      rw [processBuffer, if_neg (by omega), if_neg fits, if_pos (by omega)]

theorem processBuffer_nil (empty : s.wbuf = []) (turns : Nat) :
    s.processBuffer places turns = (s, true) := by
  cases turns with
  | zero => rfl
  | succ turns => rw [processBuffer, if_pos (by rw [empty]; decide)]

theorem writeLoop_nil (turns : Nat) : s.writeLoop places turns [] = (s, true) := by
  cases turns with
  | zero => rfl
  | succ turns => rw [writeLoop, if_pos rfl]

/-! ## Troubles stay -/

theorem troubles_processRequest : s.troubles.length ≤ (s.processRequest places).1.troubles.length := by
  rw [processRequest]
  cases request places s.du (sockmsg s.wbuf)
      ((s.wbuf.drop sockmsgSize).take (sockmsg s.wbuf).len) (s.wbuf.drop sockmsgSize) with
  | error what => simp [wtrouble]
  | ok result => exact le_rfl

theorem troubles_processBuffer (turns : Nat) :
    ∀ s : XbDev, s.troubles.length ≤ (s.processBuffer places turns).1.troubles.length := by
  induction turns with
  | zero => exact fun s => le_rfl
  | succ turns ih =>
    intro s
    have first : s.troubles.length ≤ (s.processRequest places).1.troubles.length :=
      troubles_processRequest
    simp only [processBuffer]
    split
    · exact le_rfl
    · split
      · simp [wtrouble]
      · split
        · exact le_rfl
        · split
          · refine le_trans ?_ (ih _)
            split <;> exact first
          · split <;> exact first

theorem troubles_writeLoop (turns : Nat) : ∀ (s : XbDev) (resid : List UInt8),
    s.troubles.length ≤ (s.writeLoop places turns resid).1.troubles.length := by
  induction turns with
  | zero => exact fun s _ => le_rfl
  | succ turns ih =>
    intro s resid
    let filled := { s with wbuf := s.wbuf ++ resid.take (bufferSize - s.wbuf.length) }
    have first : s.troubles.length ≤ (filled.processBuffer places filled.wbuf.length).1.troubles.length :=
      troubles_processBuffer filled.wbuf.length filled
    simp only [writeLoop]
    split
    · exact le_rfl
    · split
      · exact first.trans (ih _ _)
      · exact first

theorem troubles_run (events : List XbWriteEvent) :
    ∀ s : XbDev, s.troubles.length ≤ (s.run places events).troubles.length := by
  induction events with
  | nil => exact fun s => le_rfl
  | cons event rest ih =>
    intro s
    refine le_trans ?_ (ih _)
    cases event with
    | write bytes => exact troubles_writeLoop _ s bytes
    | change f => exact le_rfl

/-! ## Each message by its own write -/

variable (places) in
def own (r : XbDev) (msgs : List XsMessage) : XbDev := r.run places (msgs.map fun m => .write m.encode)

variable (places) in
theorem devWrite_encode (empty : r.wbuf = []) :
    r.devWrite places m.encode = match request places r.du m.header m.payload m.payload with
      | .error what => (r.wtrouble what, false)
      | .ok (u, req) => ({ r.accept m u req [] with wbuf := [] }, true) := by
  have size : m.encode.length = (sockmsgSize + m.payload.length - 1) + 1 := by
    rw [length_encode, sockmsgSize]
    omega
  have some : m.encode ≠ [] := by
    intro none
    rw [none, length_nil] at size
    omega
  have fits := encode_le_bufferSize (m := m)
  have all : m.encode.take bufferSize = m.encode := take_of_length_le fits
  have left : m.encode.drop bufferSize = [] := drop_eq_nil_of_le fits
  let filled : XbDev := { r with wbuf := m.encode }
  have whole : filled.wbuf = m.encode ++ [] := (append_nil _).symm
  have turn := processBuffer_whole places whole (sockmsgSize + m.payload.length - 1)
  rw [← size] at turn
  rw [devWrite, size, writeLoop, if_neg some]
  simp only [empty, nil_append, length_nil, Nat.sub_zero, all, left]
  rw [turn]
  cases request places r.du m.header m.payload m.payload with
  | error what => simp [filled, wtrouble]
  | ok result =>
    simp only [filled]
    rw [processBuffer_nil rfl]
    simp [writeLoop_nil, accept]

theorem own_cons (m : XsMessage) (rest : List XsMessage) :
    r.own places (m :: rest) = own places (r.devWrite places m.encode).1 rest := rfl

theorem own_append (first second : List XsMessage) :
    r.own places (first ++ second) = own places (r.own places first) second := by
  rw [own, map_append, run, foldl_append]
  rfl

variable (places) in
/-- The transactions and the watches after a message. -/
def userAfter (u : XbUser) (m : XsMessage) : XbUser :=
  match request places u m.header m.payload m.payload with
  | .error _ => u
  | .ok (after, _) => after

theorem own_du (msgs : List XsMessage) : ∀ r : XbDev, r.wbuf = [] →
    (r.own places msgs).du = msgs.foldl (userAfter places) r.du := by
  induction msgs with
  | nil => intro r _; rfl
  | cons m rest ih =>
    intro r empty
    rw [own_cons, devWrite_encode places empty, foldl_cons, userAfter]
    cases request places r.du m.header m.payload m.payload with
    | error what | ok result => exact ih _ rfl

/-! ## Pieces that end where they have to -/

variable (places) in
/-- The buffer holds the first `h` bytes of the messages, and `later` bytes of the write are not in it
yet: nothing is behind a whole message that is forwarded, and a refused one is the end of the write. -/
def fillAligned (later : Nat) : XbUser → List XsMessage → Nat → Bool
  | _, [], _ => true
  | u, m :: rest, h =>
    if m.encode.length ≤ h then
      match request places u m.header m.payload m.payload with
      | .error _ => h = m.encode.length && later = 0
      | .ok (after, _) =>
        (!(requestKind m.type.toNat).forwards || h = m.encode.length) &&
          fillAligned later after rest (h - m.encode.length)
    else true

variable (places) in
/-- Each time that the buffer is filled from a write, of which `resid` bytes are left. -/
def writeAligned : Nat → XbUser → List XsMessage → Nat → Nat → Bool
  | 0, _, _, _, _ => true
  | turns + 1, u, msgs, have_, resid =>
    let n := bufferSize - have_
    let all := completed XsMessage.encode msgs (have_ + min n resid)
    resid = 0 || fillAligned places (resid - n) u msgs (have_ + min n resid) &&
      writeAligned turns ((msgs.take all.1).foldl (userAfter places) u) (msgs.drop all.1) all.2 (resid - n)

variable (places) in
/-- Each write, when `have_` bytes of the messages are in the buffer. -/
def aligned : XbUser → List XsMessage → Nat → List XbWriteEvent → Bool
  | _, _, _, [] => true
  | u, msgs, have_, .change f :: rest => aligned (f u) msgs have_ rest
  | u, msgs, have_, .write bytes :: rest =>
    let all := completed XsMessage.encode msgs (have_ + bytes.length)
    writeAligned places bytes.length u msgs have_ bytes.length &&
      aligned ((msgs.take all.1).foldl (userAfter places) u) (msgs.drop all.1) all.2 rest

theorem writeAligned_zero (turns : Nat) (u : XbUser) (msgs : List XsMessage) (have_ : Nat) :
    writeAligned places turns u msgs have_ 0 = true := by
  cases turns with
  | zero => rfl
  | succ turns => rfl

/-! ## The same requests, with what stood behind them -/

def XbRequest.withBehind (req : XbRequest) (behind : List UInt8) : XbRequest :=
  { req with payload := req.payload ++ behind }

/-- A device and one to which the same messages were written one by one; `behinds` are the bytes that
stood in the buffer behind each of the messages that were forwarded. -/
structure Sim (s r : XbDev) (behinds : List (List UInt8)) : Prop where
  du : s.du = r.du
  empty : r.wbuf = []
  length : behinds.length = r.handed.length
  handed : s.handed = List.zipWith XbRequest.withBehind r.handed behinds

section
variable {behinds : List (List UInt8)}

theorem Sim.accept (sim : s.Sim r behinds) (m : XsMessage) (u : XbUser) (req : XbRequest)
    (behind wbuf : List UInt8) :
    Sim { s.accept m u req behind with wbuf := wbuf } { r.accept m u req [] with wbuf := [] }
      (behinds ++ [if (requestKind m.type.toNat).forwards then behind else []]) where
  du := rfl
  empty := rfl
  length := by simp [XbDev.accept, sim.length]
  handed := by
    simp only [XbDev.accept, append_nil, ite_self]
    rw [zipWith_append sim.length.symm, sim.handed]
    cases (requestKind m.type.toNat).forwards with
    | true | false => simp [XbRequest.withBehind]

theorem Sim.refuse (sim : s.Sim r behinds) (what : String) :
    (s.wtrouble what).Sim (r.wtrouble what) behinds :=
  { du := sim.du, empty := rfl, length := sim.length, handed := sim.handed }

theorem Sim.handed_eq_iff (sim : s.Sim r behinds) :
    s.handed = r.handed ↔ ∀ behind ∈ behinds, behind = [] := by
  rw [sim.handed]
  have length := sim.length
  generalize r.handed = reqs at length ⊢
  clear sim
  induction reqs generalizing behinds with
  | nil =>
    rw [length_nil, length_eq_zero_iff] at length
    simp [length]
  | cons req rest ih =>
    cases behinds with
    | nil => simp at length
    | cons behind behinds =>
      simp only [length_cons, Nat.add_right_cancel_iff] at length
      have same : XbRequest.withBehind req behind = req ↔ behind = [] := by
        simp [XbRequest.withBehind, XbRequest.ext_iff]
      simp [ih length, same]

end

theorem completed_zero (msgs : List XsMessage) : completed encode msgs 0 = (0, 0) := by
  cases msgs with
  | nil => rfl
  | cons m rest =>
    apply completed_of_lt
    rw [length_encode, sockmsgSize]
    omega

theorem processBuffer_sim (later : Nat) :
    ∀ (msgs : List XsMessage) (h turns : Nat) (s r : XbDev) (behinds : List (List UInt8)),
      s.Sim r behinds → s.wbuf = (stream encode msgs).take h → h ≤ (stream encode msgs).length →
      h ≤ turns →
      (∃ after new, s.processBuffer places turns = (after, true) ∧
          after.Sim (r.own places (msgs.take (completed encode msgs h).1)) (behinds ++ new) ∧
          (fillAligned places later r.du msgs h = true ↔ ∀ behind ∈ new, behind = []) ∧
          after.wbuf = (stream encode (msgs.drop (completed encode msgs h).1)).take
            (completed encode msgs h).2) ∨
        ∃ after, s.processBuffer places turns = (after, false) ∧ after.wbuf = [] ∧
          (fillAligned places later r.du msgs h = true → later = 0 ∧ (completed encode msgs h).2 = 0 ∧
            ∃ new, (∀ behind ∈ new, behind = []) ∧
              after.Sim (r.own places (msgs.take (completed encode msgs h).1)) (behinds ++ new)) ∧
          r.troubles.length <
            (r.own places (msgs.take (completed encode msgs h).1)).troubles.length := by
  intro msgs
  induction msgs with
  | nil =>
    intro h turns s r behinds sim buffer _ _
    rw [stream_nil, take_nil] at buffer
    left
    refine ⟨s, [], processBuffer_nil buffer turns, by rwa [append_nil], ?_, ?_⟩
    · simp [fillAligned]
    · simp [buffer, completed]
  | cons m msgs ih =>
    intro h turns s r behinds sim buffer within enough
    by_cases whole : m.encode.length ≤ h
    · let behind := (stream encode msgs).take (h - m.encode.length)
      have starts : s.wbuf = m.encode ++ behind := by
        rw [buffer, stream_cons, take_append, take_of_length_le whole]
      have header := length_encode (m := m)
      simp only [sockmsgSize] at header
      obtain ⟨turns, rfl⟩ : ∃ n, turns = n + 1 := ⟨turns - 1, by omega⟩
      have rest : h - m.encode.length ≤ (stream encode msgs).length := by
        rw [stream_cons, length_append] at within
        omega
      have write := devWrite_encode places (m := m) sim.empty
      rw [processBuffer_whole places starts, completed_of_le whole, take_succ_cons,
        drop_succ_cons, own_cons, write, sim.du, fillAligned, if_pos whole]
      cases request places r.du m.header m.payload m.payload with
      | error what =>
        right
        refine ⟨_, rfl, rfl, ?_, ?_⟩
        · -- Nothing stood behind it, so the buffer ended with it.
          intro last
          simp only [Bool.and_eq_true, decide_eq_true_eq] at last
          rw [last.1, Nat.sub_self, completed_zero]
          refine ⟨last.2, rfl, [], by simp, ?_⟩
          rw [append_nil]
          exact sim.refuse what
        · refine lt_of_lt_of_le ?_ (troubles_run _ _)
          simp [wtrouble]
      | ok result =>
        obtain ⟨u, req⟩ := result
        let own_ := if (requestKind m.type.toNat).forwards then behind else []
        have none_ : own_ = [] ↔
            (!(requestKind m.type.toNat).forwards || decide (h = m.encode.length)) = true := by
          have length : behind.length = h - m.encode.length := by rw [length_take]; omega
          rw [← length_eq_zero_iff]
          simp only [own_]
          split
          · next forwards =>
              rw [length, forwards]
              simp only [Bool.not_true, Bool.false_or, decide_eq_true_eq]
              omega
          · next not_ => simp [not_]
        simp only [Bool.and_eq_true, ← none_]
        rcases ih (h - m.encode.length) turns _ _ _ (sim.accept m u req behind behind) rfl rest
            (by omega) with ⟨after, new, ran, simAfter, iff, left⟩ | ⟨after, ran, empty, last, trouble⟩
        · refine .inl ⟨after, own_ :: new, ran, ?_, ?_, left⟩
          · rwa [append_assoc] at simAfter
          · rw [forall_mem_cons, ← iff]
            rfl
        · refine .inr ⟨after, ran, empty, ?_, trouble⟩
          rintro ⟨first, others⟩
          obtain ⟨over_, zero, new, nils, simAfter⟩ := last others
          refine ⟨over_, zero, own_ :: new, forall_mem_cons.mpr ⟨first, nils⟩, ?_⟩
          rwa [append_assoc] at simAfter
    · have part := Nat.lt_of_not_le whole
      left
      have starts : s.wbuf = m.encode.take h := by
        rw [buffer, stream_cons, take_append_of_le_length (le_of_lt part)]
      refine ⟨s, [], processBuffer_part part starts turns, ?_⟩
      rw [completed_of_lt part, fillAligned, if_neg whole, append_nil]
      exact ⟨sim, by simp, buffer⟩

/-- A part of one message leaves room in the buffer. -/
theorem part_lt_bufferSize {msgs : List XsMessage} {h : Nat} (waits : completed encode msgs h = (0, h))
    (more : h < (stream encode msgs).length) : h < bufferSize := by
  cases msgs with
  | nil => cases more
  | cons m rest =>
    by_contra beyond
    have fits := encode_le_bufferSize (m := m)
    rw [completed_of_le (by omega)] at waits
    cases waits

theorem drop_prefix_drop {l resid : List UInt8} {k : Nat} (comes : resid <+: l.drop k) (n : Nat) :
    resid.drop n <+: l.drop (k + min n resid.length) := by
  by_cases over_ : resid.length ≤ n
  · rw [drop_eq_nil_of_le over_]
    exact nil_prefix
  · obtain ⟨later, is⟩ := comes
    rw [min_eq_left (by omega), ← drop_drop, ← is, drop_append_of_le_length (by omega)]
    exact prefix_append _ _

variable (places) in
theorem writeLoop_sim :
    ∀ (turns : Nat) (msgs : List XsMessage) (have_ : Nat) (resid : List UInt8) (s r : XbDev)
      (behinds : List (List UInt8)), s.Sim r behinds →
      s.wbuf = (stream encode msgs).take have_ → completed encode msgs have_ = (0, have_) →
      resid <+: (stream encode msgs).drop have_ → resid.length ≤ turns →
      let all := completed encode msgs (have_ + resid.length)
      let after := (s.writeLoop places turns resid).1
      (∃ new, after.Sim (r.own places (msgs.take all.1)) (behinds ++ new) ∧
          (writeAligned places turns r.du msgs have_ resid.length = true ↔ ∀ behind ∈ new, behind = []) ∧
          after.wbuf = (stream encode (msgs.drop all.1)).take all.2) ∨
        writeAligned places turns r.du msgs have_ resid.length = false ∧
          r.troubles.length < (r.own places (msgs.take all.1)).troubles.length := by
  intro turns
  induction turns with
  | zero =>
    intro msgs have_ resid s r behinds sim buffer waits _ enough
    have none : resid.length = 0 := Nat.le_zero.mp enough
    refine .inl ⟨[], ?_⟩
    simp only [none, add_zero, waits, writeLoop, append_nil]
    exact ⟨sim, by simp [writeAligned], buffer⟩
  | succ turns ih =>
    intro msgs have_ resid s r behinds sim buffer waits comes enough
    by_cases none : resid = []
    · refine .inl ⟨[], ?_⟩
      subst none
      simp only [writeLoop_nil, length_nil, add_zero, waits, append_nil]
      exact ⟨sim, by simp [writeAligned_zero], buffer⟩
    · have some : 0 < resid.length := length_pos_iff.mpr none
      have length := comes.length_le
      rw [length_drop] at length
      have room := part_lt_bufferSize waits (by omega)
      have used : s.wbuf.length = have_ := by rw [buffer, length_take]; omega
      let n := bufferSize - have_
      let h := have_ + min n resid.length
      let filled := { s with wbuf := s.wbuf ++ resid.take n }
      have taken : resid.take n = ((stream encode msgs).drop have_).take
          (resid.take n).length := by
        exact prefix_iff_eq_take.mp (( take_prefix n resid).trans comes)
      have fills : filled.wbuf = (stream encode msgs).take h := by
        simp only [filled, h]
        rw [take_add, ← length_take, ← taken, buffer]
      have within : h ≤ (stream encode msgs).length := by
        simp only [h]
        omega
      have size : filled.wbuf.length = h := by
        rw [fills, length_take]
        omega
      have total : have_ + resid.length = h + (resid.drop n).length := by
        simp only [h, length_drop]
        omega
      have simFilled : filled.Sim r behinds := { sim with }
      have unfolds : writeAligned places (turns + 1) r.du msgs have_ resid.length =
          (fillAligned places (resid.drop n).length r.du msgs h &&
            writeAligned places turns (r.own places (msgs.take (completed encode msgs h).1)).du
              (msgs.drop (completed encode msgs h).1) (completed encode msgs h).2
              (resid.drop n).length) := by
        rw [own_du _ _ sim.empty, length_drop, writeAligned]
        simp only [decide_eq_false (show ¬ resid.length = 0 by omega), Bool.false_or]
        rfl
      rw [total, completed_add, unfolds]
      rcases processBuffer_sim (resid.drop n).length msgs h filled.wbuf.length filled r behinds simFilled
          fills within (le_of_eq size.symm) with
        ⟨after, new, ran, simAfter, iff, left⟩ | ⟨after, ran, discarded, last, trouble⟩
      · have goes : s.writeLoop places (turns + 1) resid =
            after.writeLoop places turns (resid.drop n) := by
          rw [writeLoop, if_neg none, used]
          simp only [show processBuffer places (s.wbuf ++ resid.take (bufferSize - have_)).length
            { s with wbuf := s.wbuf ++ resid.take (bufferSize - have_) } = _ from ran, if_true, n]
        have later : resid.drop n <+: (stream encode
            (msgs.drop (completed encode msgs h).1)).drop
              (completed encode msgs h).2 := by
          rw [← drop_stream]
          exact drop_prefix_drop comes n
        have rest := ih _ _ (resid.drop n) after _ _ simAfter left (completed_drop msgs h) later (by
          rw [length_drop]
          omega)
        rw [goes]
        simp only [take_add, own_append, ← drop_drop]
        rcases rest with ⟨new', sim', iff', left'⟩ | ⟨broken, trouble'⟩
        · refine .inl ⟨new ++ new', by rwa [append_assoc] at sim', ?_, left'⟩
          rw [Bool.and_eq_true, iff, iff', forall_mem_append]
        · refine .inr ⟨by rw [broken, Bool.and_false], ?_⟩
          exact lt_of_le_of_lt (troubles_run _ _) trouble'
      · have ends : s.writeLoop places (turns + 1) resid = (after, false) := by
          rw [writeLoop, if_neg none, used]
          simp only [show processBuffer places (s.wbuf ++ resid.take (bufferSize - have_)).length
            { s with wbuf := s.wbuf ++ resid.take (bufferSize - have_) } = _ from ran,
            Bool.false_eq_true, if_false]
        rw [ends]
        by_cases fine : fillAligned places (resid.drop n).length r.du msgs h = true
        · obtain ⟨over_, zero, new, nils, simAfter⟩ := last fine
          have done : completed encode
              (msgs.drop (completed encode msgs h).1)
              (completed encode msgs h).2 = (0, _) := completed_drop msgs h
          refine .inl ⟨new, ?_⟩
          rw [over_] at fine ⊢
          simp only [add_zero, done, fine, writeAligned_zero, Bool.and_self, true_iff]
          refine ⟨simAfter, nils, ?_⟩
          rw [zero]
          simpa using discarded
        · right
          simp only [take_add, own_append]
          refine ⟨by rw [Bool.eq_false_iff.mpr fine, Bool.false_and], ?_⟩
          exact lt_of_lt_of_le trouble (troubles_run _ _)

/-! ## Runs -/

def written (events : List XbWriteEvent) : List UInt8 :=
  events.flatMap fun
    | .write bytes => bytes
    | .change _ => []

/-- The same events, with a write for each message, at the time when its last byte came. -/
def ownWrites : List XsMessage → Nat → List XbWriteEvent → List XbWriteEvent
  | _, _, [] => []
  | msgs, have_, .change f :: rest => .change f :: ownWrites msgs have_ rest
  | msgs, have_, .write bytes :: rest =>
    let all := completed XsMessage.encode msgs (have_ + bytes.length)
    (msgs.take all.1).map (fun m => .write m.encode) ++ ownWrites (msgs.drop all.1) all.2 rest

theorem run_append (first second : List XbWriteEvent) :
    r.run places (first ++ second) = (r.run places first).run places second :=
  foldl_append

theorem run_sim :
    ∀ (events : List XbWriteEvent) (msgs : List XsMessage) (have_ : Nat) (s r : XbDev)
      (behinds : List (List UInt8)), s.Sim r behinds →
      s.wbuf = (stream encode msgs).take have_ → completed encode msgs have_ = (0, have_) →
      written events = (stream encode msgs).drop have_ →
      (∃ new, (s.run places events).Sim (r.run places (ownWrites msgs have_ events)) (behinds ++ new) ∧
          (aligned places r.du msgs have_ events = true ↔ ∀ behind ∈ new, behind = [])) ∨
        aligned places r.du msgs have_ events = false ∧
          r.troubles.length < (r.run places (ownWrites msgs have_ events)).troubles.length := by
  intro events
  induction events with
  | nil =>
    intro msgs have_ s r behinds sim _ _ _
    exact .inl ⟨[], by rwa [append_nil], by simp [aligned]⟩
  | cons event rest ih =>
    intro msgs have_ s r behinds sim buffer waits comes
    cases event with
    | change f =>
      have simAfter : Sim { s with du := f s.du } { r with du := f r.du } behinds :=
        { sim with du := congrArg f sim.du }
      exact ih msgs have_ _ _ _ simAfter buffer waits comes
    | write bytes =>
      have splits : bytes ++ written rest = (stream encode msgs).drop have_ := comes
      have one := writeLoop_sim places bytes.length msgs have_ bytes s r behinds sim buffer waits
        ⟨written rest, splits⟩ (le_rfl)
      rw [ownWrites, run_append, aligned, ← own_du _ _ sim.empty]
      rcases one with ⟨new, simAfter, iff, left⟩ | ⟨broken, trouble⟩
      · have later : written rest = (stream encode
            (msgs.drop (completed encode msgs (have_ + bytes.length)).1)).drop
              (completed encode msgs (have_ + bytes.length)).2 := by
          rw [← drop_stream, ← drop_drop, ← splits, drop_left]
        rcases ih _ _ _ _ _ simAfter left (completed_drop _ _) later with
          ⟨new', sim', iff'⟩ | ⟨broken, trouble'⟩
        · refine .inl ⟨new ++ new', by rwa [append_assoc] at sim', ?_⟩
          rw [Bool.and_eq_true, iff, forall_mem_append]
          exact and_congr_right fun _ => iff'
        · refine .inr ⟨?_, lt_of_le_of_lt (troubles_run _ _) trouble'⟩
          rw [Bool.and_eq_false_iff]
          exact .inr broken
      · refine .inr ⟨by rw [broken, Bool.false_and], ?_⟩
        exact lt_of_lt_of_le trouble (troubles_run _ _)

/-- Messages that come in any pieces, while the readers change the transactions and the watches in any
way: the device hands over the same requests as if each message had its own write, if the pieces are
aligned; and if every message is accepted in its own write, only then. -/
theorem write_framing (places : Nat → XbPlace) (u : XbUser) (msgs : List XsMessage)
    (events : List XbWriteEvent) (cut : written events = stream XsMessage.encode msgs) :
    let pieces := (init u).run places events
    let whole := (init u).run places (ownWrites msgs 0 events)
    (aligned places u msgs 0 events = true → pieces.handed = whole.handed) ∧
      (whole.troubles = [] → (pieces.handed = whole.handed ↔ aligned places u msgs 0 events = true)) := by
  intro pieces whole
  have start : (init u).Sim (init u) [] := { du := rfl, empty := rfl, length := rfl, handed := rfl }
  rcases run_sim events msgs 0 (init u) (init u) [] start rfl (completed_zero msgs) cut with
    ⟨new, sim, iff⟩ | ⟨broken, trouble⟩
  · have same := sim.handed_eq_iff.trans iff.symm
    exact ⟨same.mpr, fun _ => same⟩
  · refine ⟨?_, ?_⟩
    · intro fine
      cases broken.symm.trans fine
    · intro accepted
      rw [show ((init u).run places (ownWrites msgs 0 events)).troubles = [] from accepted] at trouble
      exact absurd trouble (Nat.not_lt_zero _)

end XbDev

/-- A request for the value of `/a`, and one for the value of `/b`. -/
def readA : XsMessage := ⟨2, 1, 0, [47, 97, 0], by decide⟩

def readB : XsMessage := ⟨2, 2, 0, [47, 98, 0], by decide⟩

def noUser : XbUser := { transactions := [], watches := [], prepared := 0 }

theorem XbDev.write_framing_two_pieces :
    ((init noUser).run (fun _ => ⟨[], 0, 0⟩) [.write (readA.encode.take 10), .write (readA.encode.drop 10),
        .write readB.encode]).handed =
      ((init noUser).run (fun _ => ⟨[], 0, 0⟩) (ownWrites [readA, readB] 0 [.write (readA.encode.take 10),
        .write (readA.encode.drop 10), .write readB.encode])).handed :=
  (XbDev.write_framing (fun _ => ⟨[], 0, 0⟩) noUser [readA, readB] _ (by decide)).1 (by decide)

/-- Two messages in one write: the first is forwarded with the second in its payload. -/
theorem XbDev.write_forwards_next_message :
    XbDev.written [.write (readA.encode ++ readB.encode)] = stream XsMessage.encode [readA, readB] ∧
      ((init noUser).run (fun _ => ⟨[], 0, 0⟩) [.write (readA.encode ++ readB.encode)]).handed =
        [⟨2, 0, readA.payload ++ readB.encode⟩, ⟨2, 0, readB.payload⟩] ∧
      ((init noUser).run (fun _ => ⟨[], 0, 0⟩)
        (ownWrites [readA, readB] 0 [.write (readA.encode ++ readB.encode)])).handed =
        [⟨2, 0, readA.payload⟩, ⟨2, 0, readB.payload⟩] := by
  decide +kernel

end Rumprun.Xen
