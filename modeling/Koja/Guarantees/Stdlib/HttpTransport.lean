import Koja.Source.Stdlib.HttpClient

/-!
# The HTTP client and the splits of its transport

`client.koja` writes the request once and decodes each chunk it reads on its own. A call shows how
its transport splits bytes unless one write takes the whole request and every chunk is text by
itself; and it closes the socket only at the end of a stream that it could read.
-/
namespace Koja.Guarantees.Stdlib

open Koja.Source.Stdlib.Http

/-- The whole response stream, however it is split. -/
def Socket.stream (socket : Socket) : ByteArray :=
  (socket.incoming.map Subtype.val).foldr (· ++ ·) .empty

/-- The transport reports no error. -/
def Socket.Sound (socket : Socket) : Prop :=
  (∃ most, socket.accepts = .ok most) ∧ socket.ending = none

/-- The exchange of `text` for `stream` over `socket`, which the call leaves as `left`, does not
show how the transport splits bytes, and closes the socket. -/
structure Transparent {Response : Type} (parseResponse : String → Except HttpError Response)
    (text stream : String) (socket left : Socket) (result : Except HttpError Response) : Prop where
  closed : left.closes = socket.closes + 1
  delivered : Socket.Sound socket → left.delivered = socket.delivered ++ text.toByteArray
  parsed : Socket.Sound socket → result = parseResponse stream

/-- Every read decodes and the stream ends. -/
def Socket.Decodes (socket : Socket) : Prop :=
  socket.ending = none ∧ ∀ chunk ∈ socket.incoming, chunk.val.IsValidUTF8

theorem readAll_nil {socket : Socket} (done : socket.incoming = []) (acc : String) :
    readAll socket acc = match socket.ending with
      | none => (.ok acc, socket.close)
      | some e => (.error (.connectionFailed ("read failed: " ++ netErrorMessage e)), socket) := by
  rw [readAll, Socket.readString_nil _ done]
  cases socket.ending with
  | none => rfl
  | some => rfl

theorem readAll_cons {socket : Socket} {chunk : Chunk readCount} {rest : List (Chunk readCount)}
    (more : socket.incoming = chunk :: rest) (acc : String) :
    readAll socket acc = if valid : chunk.val.IsValidUTF8 then
        readAll { socket with incoming := rest } (acc ++ .fromUTF8 chunk valid)
      else (.error (.connectionFailed ("read failed: " ++ netErrorMessage .conversion)),
        { socket with incoming := rest }) := by
  rw [readAll, Socket.readString_cons _ more, binaryToString, String.fromUTF8?]
  by_cases valid : chunk.val.IsValidUTF8
  · have unfinished : (String.fromUTF8 chunk valid).isEmpty = false :=
      beq_eq_false_iff_ne.mpr chunk.2.1.ne'
    rw [dif_pos valid, dif_pos valid]
    exact if_neg (ne_true_of_eq_false unfinished)
  · rw [dif_neg valid, dif_neg valid]
    rfl

/-- A stream whose chunks all decode is read whole, and the socket is closed at its end. -/
theorem readAll_decodes {socket : Socket} (decodes : Socket.Decodes socket) (acc : String) :
    ∃ data, readAll socket acc =
        (.ok data, { socket with incoming := [], closes := socket.closes + 1 }) ∧
      data.toByteArray = acc.toByteArray ++ Socket.stream socket := by
  obtain ⟨accepts, incoming, ending, delivered, closes⟩ := socket
  obtain ⟨rfl : ending = none, valid⟩ := decodes
  induction incoming generalizing acc with
  | nil =>
    exact ⟨acc, readAll_nil rfl acc, by simp [Socket.stream]⟩
  | cons chunk rest ih =>
    rw [List.forall_mem_cons] at valid
    obtain ⟨data, read, bytes⟩ := ih (acc ++ .fromUTF8 chunk valid.1) valid.2
    refine ⟨data, ?_, ?_⟩
    · rw [readAll_cons rfl, dif_pos valid.1, read]
    · rw [bytes, String.toByteArray_append, ByteArray.append_assoc]
      rfl

/-- A read that fails leaves the socket open. -/
theorem readAll_fails {socket : Socket} (fails : ¬ Socket.Decodes socket) (acc : String) :
    (readAll socket acc).2.closes = socket.closes := by
  obtain ⟨accepts, incoming, ending, delivered, closes⟩ := socket
  induction incoming generalizing acc with
  | nil =>
    rw [readAll_nil rfl]
    cases ending with
    | none => exact absurd ⟨rfl, by simp⟩ fails
    | some => rfl
  | cons chunk rest ih =>
    rw [readAll_cons rfl]
    split
    · next valid =>
      refine ih _ fun decodes => fails ⟨decodes.1, ?_⟩
      exact List.forall_mem_cons.mpr ⟨valid, decodes.2⟩
    · rfl

section

variable {Response : Type} {parse : String → Except UriError Uri}
  {connect : Peer → Except NetError Socket} {parseResponse : String → Except HttpError Response}

theorem readResponse_decodes {socket : Socket} {stream : String} (decodes : Socket.Decodes socket)
    (whole : Socket.stream socket = stream.toByteArray) :
    readResponse parseResponse socket =
      (parseResponse stream, { socket with incoming := [], closes := socket.closes + 1 }) := by
  obtain ⟨data, read, bytes⟩ := readAll_decodes decodes ""
  rw [whole, String.toByteArray_empty, ByteArray.empty_append, String.toByteArray_inj] at bytes
  rw [readResponse, read, bytes]

theorem readResponse_fails {socket : Socket} (fails : ¬ Socket.Decodes socket) :
    (readResponse parseResponse socket).2.closes = socket.closes := by
  have left := readAll_fails fails ""
  rw [readResponse]
  split
  all_goals
    next read =>
    rw [read] at left
    exact left

theorem extract_whole_iff (bytes : ByteArray) (most : Nat) :
    bytes.extract 0 (min most bytes.size) = bytes ↔ bytes.size ≤ most := by
  constructor
  · intro whole
    have sizes := congrArg ByteArray.size whole
    rw [ByteArray.size_extract] at sizes
    omega
  · intro fits
    rw [min_eq_right fits, ByteArray.extract_zero_size]

theorem exchange_transparent_iff {socket : Socket} {stream : String} (text : String)
    (whole : Socket.stream socket = stream.toByteArray) :
    Transparent parseResponse text stream socket (exchange parseResponse text socket).2
        (exchange parseResponse text socket).1 ↔
      (∃ most, socket.accepts = .ok most ∧ text.utf8ByteSize ≤ most) ∧ Socket.Decodes socket := by
  obtain ⟨accepts, incoming, ending, delivered, closes⟩ := socket
  cases accepts with
  | error e =>
    refine iff_of_false (fun transparent => (Nat.succ_ne_self _).symm transparent.closed) ?_
    rintro ⟨⟨_, ⟨⟩, -⟩, -⟩
  | ok most =>
    let sent := text.toByteArray.extract 0 (min most text.utf8ByteSize)
    have run : exchange parseResponse text ⟨.ok most, incoming, ending, delivered, closes⟩ =
        readResponse parseResponse ⟨.ok most, incoming, ending, delivered ++ sent, closes⟩ := rfl
    rw [run]
    by_cases decodes : Socket.Decodes ⟨.ok most, incoming, ending, delivered ++ sent, closes⟩
    · rw [readResponse_decodes decodes whole]
      constructor
      · intro transparent
        have all := transparent.delivered ⟨⟨most, rfl⟩, decodes.1⟩
        exact ⟨⟨most, rfl, (extract_whole_iff _ _).mp ((ByteArray.append_right_inj _).mp all)⟩,
          decodes⟩
      · rintro ⟨⟨_, ⟨⟩, fits⟩, -⟩
        exact ⟨rfl, fun _ => congrArg (delivered ++ ·) ((extract_whole_iff _ _).mpr fits),
          fun _ => rfl⟩
    · refine iff_of_false (fun transparent => ?_) fun all => decodes all.2
      exact (Nat.succ_ne_self _).symm ((readResponse_fails decodes).symm.trans transparent.closed)

/-- A call over a connected socket hides the splits of the transport and closes the socket exactly
when one write takes the whole request, the stream ends without an error, and every chunk of it
decodes on its own. -/
theorem transport_transparent_iff {peer : Peer} {socket : Socket} {stream : String}
    (method : Method) (url : String) (headers : Headers) (body : String)
    (addressed : peerOf parse url = .ok peer) (connected : connect peer = .ok socket)
    (whole : Socket.stream socket = stream.toByteArray) :
    ∃ result left,
      request parse connect parseResponse method url headers body = (result, some left) ∧
      (Transparent parseResponse (buildRequest method peer.host peer.target headers body) stream
          socket left result ↔
        (∃ most, socket.accepts = .ok most ∧
          (buildRequest method peer.host peer.target headers body).utf8ByteSize ≤ most) ∧
        socket.ending = none ∧ ∀ chunk ∈ socket.incoming, chunk.val.IsValidUTF8) := by
  refine ⟨_, _, ?_, exchange_transparent_iff _ whole⟩
  rw [request, addressed]
  simp only [connected]
  rfl

end

def page : Uri := ⟨some "http", some "h", some 80, "", none⟩

/-- A response of two chunks, split between its characters. -/
def accented : Socket :=
  ⟨.ok 99, [⟨"é".toByteArray, by decide⟩, ⟨"té".toByteArray, by decide⟩], none, .empty, 0⟩

theorem whole_characters_pass : ∃ result left,
    request (fun _ => .ok page) (fun _ => .ok accented) Except.ok .get "" ⟨[]⟩ "" =
        (result, some left) ∧
      Transparent Except.ok (buildRequest .get "h" "/" ⟨[]⟩ "") "été" accented left result := by
  obtain ⟨result, left, run, iff⟩ := @transport_transparent_iff _ (fun _ => .ok page)
    (fun _ => .ok accented) Except.ok ⟨false, "h", 80, "/"⟩ _ "été" .get "" ⟨[]⟩ "" rfl rfl
    (by decide)
  exact ⟨result, left, run, iff.mpr ⟨⟨99, rfl, by decide⟩, rfl, by decide⟩⟩

/-- The two bytes of `é`, apart. -/
def cut : List (Chunk readCount) := [⟨⟨#[0xC3]⟩, by decide⟩, ⟨⟨#[0xA9]⟩, by decide⟩]

/-- The peer gets one byte of the request, and its answer fails with the socket left open. -/
theorem cut_character_fails :
    Socket.stream ⟨.ok 1, cut, none, .empty, 0⟩ = "é".toByteArray ∧
      request (fun _ => .ok page) (fun _ => .ok ⟨.ok 1, cut, none, .empty, 0⟩)
          Except.ok .get "" ⟨[]⟩ "" =
        (.error (.connectionFailed "read failed: response is not valid UTF-8"),
          some ⟨.ok 1, cut.tail, none, "G".toByteArray, 0⟩) := by
  refine ⟨by decide, ?_⟩
  have failed := @readAll_cons ⟨.ok 1, cut, none, "G".toByteArray, 0⟩ _ _ rfl ""
  rw [dif_neg (by decide)] at failed
  change (readResponse Except.ok ⟨.ok 1, cut, none, "G".toByteArray, 0⟩).map id some = _
  rw [readResponse, failed]
  rfl

end Koja.Guarantees.Stdlib
