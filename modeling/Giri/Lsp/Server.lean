/-
Giri.Lsp.Server — the message loop of the language server
(`lsp/server.go`), and what it answers.

Everything a handler writes is a response or a notification; a response is a
message without method. What `initialize` makes of its params, and what an
analysis publishes, are parameters: they change a world `σ` (the working
directory, the files with diagnostics) and send notifications.

Responses come from several places. `initialize` and `shutdown` answer
whether or not the message has an ID, `unmarshalParams` answers one that has
(and `initialize` answers AGAIN), and the notifications of the protocol are
not answered if they have one. The result of `shutdown` is nil, and a nil
result is not encoded.
-/
import Giri.Lsp.Jsonrpc

namespace Giri.Lsp

open Framing (ascii decimal)

variable {J σ : Type}

/-! ## §1. Handlers -/

/-- The methods of `handle`. -/
inductive Method where
  | init
  | initialized
  | didOpen
  | didSave
  | didClose
  | shutdown
  | exit
  | unsupported
  deriving DecidableEq, Repr

def Method.ofString : String → Method
  | "initialize" => .init
  | "initialized" => .initialized
  | "textDocument/didOpen" => .didOpen
  | "textDocument/didSave" => .didSave
  | "textDocument/didClose" => .didClose
  | "shutdown" => .shutdown
  | "exit" => .exit
  | _ => .unsupported

/-- What the handlers do besides answering. -/
structure Env (J σ : Type) where
  /-- The error of decoding the params of a method. -/
  paramsError : String → J → Option String
  /-- `resolveRoot` and `os.Chdir`, with the params that could be decoded. -/
  enterRoot : Option J → σ → σ
  arenasEnabled : Bool
  /-- `LogMessageParams`, for a server without arenas. -/
  arenasHint : J
  initializeResult : J
  /-- `runAnalysis`, and the params of what is published. -/
  analyze : σ → σ × List J

/-- `Server`. -/
structure Server (σ : Type) where
  shuttingDown : Bool := false
  world : σ

variable (env : Env J σ)

/-- The params can't be decoded. No params are fine. -/
def Message.badParams (m : Message J) : Option String := m.params.bind (env.paramsError m.method)

/-- `unmarshalParams`: what is written. -/
def unmarshalParams (m : Message J) : List (Message J) :=
  match m.badParams env, m.id with
  | some e, some id => [respondError (some id) (-32600) ("invalid params: " ++ e)]
  | _, _ => []

variable (decode : Bytes → Except String (Message J)) (s : Server σ)

/-- `handleInitialize`. -/
def handleInitialize (m : Message J) : Server σ × List (Message J) :=
  let params := if (m.badParams env).isSome then none else m.params
  ({ s with world := env.enterRoot params s.world },
    unmarshalParams env m ++
    (if env.arenasEnabled then [] else [notify "window/logMessage" env.arenasHint]) ++
    [respond m.id (some env.initializeResult)])

/-- `didOpen` and `didSave`. -/
def handleDocument (m : Message J) : Server σ × List (Message J) :=
  if (m.badParams env).isSome then (s, unmarshalParams env m)
  else
    let (world, diags) := env.analyze s.world
    ({ s with world }, diags.map (notify "textDocument/publishDiagnostics"))

/-- `handle`: what is written, and the exit code. -/
def handle (m : Message J) : Server σ × List (Message J) × Option Nat :=
  match Method.ofString m.method with
  | .init =>
    let (s, out) := handleInitialize env s m
    (s, out, none)
  | .initialized | .didClose => (s, [], none)
  | .didOpen | .didSave =>
    let (s, out) := handleDocument env s m
    (s, out, none)
  | .shutdown => ({ s with shuttingDown := true }, [respond m.id none], none)
  | .exit => (s, [], some (if s.shuttingDown then 0 else 1))
  | .unsupported =>
    (s, if m.id.isSome then
      [respondError m.id (-32601) ("unsupported method: " ++ m.method)] else [], none)

/-! ## §2. The loop -/

/-- The loop of `Serve`, on what `readMessage` returns until the client
disconnects: messages, and errors of the codec. -/
def handleAll : Server σ → List (Except String (Message J)) → List (Message J) × Nat
  | _, [] => ([], 0)
  | s, .error e :: ms =>
    let (out, code) := handleAll s ms
    (respondError none (-32700) e :: out, code)
  | s, .ok m :: ms =>
    match handle env s m with
    | (_, out, some code) => (out, code)
    | (s, out, none) =>
      let (out', code) := handleAll s ms
      (out ++ out', code)

/-- `Serve`, for at most `fuel` messages. -/
def serveLoop (decode : Bytes → Except String (Message J)) :
    Nat → Server σ → Bytes → List (Message J) × Nat
  | 0, _, _ => ([], 1)
  | fuel + 1, s, input =>
    match readMessage decode input with
    | (.error .eof, _) => ([], 0)
    | (.error (.parse e), rest) =>
      let (out, code) := serveLoop decode fuel s rest
      (respondError none (-32700) e :: out, code)
    | (.error _, _) => ([], 1)
    | (.ok m, rest) =>
      match handle env s m with
      | (_, out, some code) => (out, code)
      | (s, out, none) =>
        let (out', code) := serveLoop decode fuel s rest
        (out ++ out', code)

/-- `Serve`: a message takes at least one byte. -/
def serve (input : Bytes) : List (Message J) × Nat :=
  serveLoop env decode (input.length + 1) s input

/-! ## §3. Frames -/

/-- What `n` calls of `readMessage` return, and the rest of the stream. -/
def readMessages (decode : Bytes → Except String (Message J)) :
    Nat → Bytes → List (Except ReadError (Message J)) × Bytes
  | 0, input => ([], input)
  | n + 1, input =>
    let (r, input) := readMessage decode input
    let (rs, rest) := readMessages decode n input
    (r :: rs, rest)

theorem readMessages_frames (decode : Bytes → Except String (Message J)) (rest : Bytes) :
    ∀ fs : List Frame, readMessages decode fs.length (fs.flatMap Frame.bytes ++ rest) =
      (fs.map fun f => f.read decode, rest)
  | [] => rfl
  | f :: fs => by
    rw [List.flatMap_cons, List.append_assoc, List.length_cons, readMessages, f.readMessage_frame]
    dsimp only
    rw [readMessages_frames decode rest fs]
    rfl

theorem serveLoop_frames (decode : Bytes → Except String (Message J)) :
    ∀ (fs : List Frame) (fuel : Nat) (s : Server σ), fs.length < fuel →
      serveLoop env decode fuel s (fs.flatMap Frame.bytes) =
        handleAll env s (fs.map fun f => decode f.body)
  | _, 0, _, h => absurd h (Nat.not_lt_zero _)
  | [], fuel + 1, s, _ => rfl
  | f :: fs, fuel + 1, s, h => by
    have ih (s : Server σ) := serveLoop_frames decode fs fuel s (Nat.lt_of_succ_lt_succ h)
    rw [List.flatMap_cons, serveLoop, f.readMessage_frame, Frame.read, List.map_cons]
    cases decode f.body with
    | error =>
      dsimp only [Except.mapError]
      rw [ih]
      rfl
    | ok =>
      dsimp only [Except.mapError, handleAll]
      split
      · rfl
      · rw [ih]

/-- The frame of a message that `write` has written. -/
def written (encode : Message J → Bytes) (m : Message J)
    (hint : (encode m.stamped).length < 2 ^ 63) : Frame where
  before := []
  name := ascii "Content-Length".toList
  pad := [32]
  pad' := [13]
  after := []
  sep := [13]
  body := encode m.stamped
  extra := nofun
  contentLength := by decide
  blank := ⟨by simp [Blank], by simp [Blank]⟩
  empty := by simp
  int := hint

theorem bytes_written (encode : Message J → Bytes) (m : Message J)
    (hint : (encode m.stamped).length < 2 ^ 63) : (written encode m hint).bytes = write encode m := by
  have hname : ascii "Content-Length: ".toList = ascii "Content-Length".toList ++ [58, 32] := by decide
  unfold write
  rw [hname]
  simp [Frame.bytes, Frame.lengthLine, written]

/-- What `write` has written, as frames. -/
theorem exists_frames {decode : Bytes → Except String (Message J)} {encode : Message J → Bytes}
    {ms : List (Message J)} (hms : ∀ m ∈ ms, decode (encode m.stamped) = .ok m.stamped ∧
      (encode m.stamped).length < 2 ^ 63) :
    ∃ fs : List Frame, fs.length = ms.length ∧ fs.flatMap Frame.bytes = ms.flatMap (write encode) ∧
      (fs.map fun f => f.read decode) = ms.map fun m => .ok m.stamped := by
  induction ms with
  | nil => exact ⟨[], rfl, rfl, rfl⟩
  | cons m ms ih =>
    obtain ⟨fs, hlen, hbytes, hread⟩ := ih fun m hm => hms m (List.mem_cons_of_mem _ hm)
    obtain ⟨hcodec, hint⟩ := hms m List.mem_cons_self
    have hm : (written encode m hint).read decode = .ok m.stamped := by
      show (decode (encode m.stamped)).mapError _ = _
      rw [hcodec]
      rfl
    refine ⟨written encode m hint :: fs, by rw [List.length_cons, hlen, List.length_cons], ?_, ?_⟩
    · rw [List.flatMap_cons, List.flatMap_cons, bytes_written, hbytes]
    · rw [List.map_cons, hm, hread, List.map_cons]

/-- A frame has at least the newline of its empty line. -/
theorem length_le_bytes (fs : List Frame) : fs.length ≤ (fs.flatMap Frame.bytes).length := by
  induction fs with
  | nil => rfl
  | cons f =>
    have hpos : 1 ≤ f.bytes.length := by
      simp only [Frame.bytes, List.length_append, List.length_cons]
      omega
    rw [List.flatMap_cons, List.length_append, List.length_cons]
    omega

/-- **The framing never loses sync**: well-framed messages are read one by
one, whatever their bodies; the server works on what they decode to, and
answers a body that can't be decoded with a parse error; and what `write`
has written is read back. -/
theorem framing_in_sync (fs : List Frame) :
    (∀ rest, readMessages decode fs.length (fs.flatMap Frame.bytes ++ rest) =
      (fs.map fun f => f.read decode, rest)) ∧ (∀ s, serve env decode s (fs.flatMap Frame.bytes) =
      handleAll env s (fs.map fun f => decode f.body)) ∧
    ∀ (encode : Message J → Bytes) (ms : List (Message J)),
      (∀ m ∈ ms, decode (encode m.stamped) = .ok m.stamped ∧ (encode m.stamped).length < 2 ^ 63) →
      ∀ rest, readMessages decode ms.length (ms.flatMap (write encode) ++ rest) =
        (ms.map fun m => .ok m.stamped, rest) := by
  refine ⟨fun rest => readMessages_frames decode rest fs, fun s => ?_, fun encode ms hms rest => ?_⟩
  · exact serveLoop_frames env decode fs _ s (Nat.lt_succ_of_le (length_le_bytes fs))
  · obtain ⟨fs, hlen, hbytes, hread⟩ := exists_frames hms
    rw [← hlen, ← hbytes, readMessages_frames, hread]

/-! ## §4. Requests and responses -/

/-- The messages up to `exit`. -/
def received (ms : List (Except String (Message J))) : List (Except String (Message J)) :=
  ms.takeWhile fun
    | .error _ => true
    | .ok m => Method.ofString m.method != .exit

/-- The ID of the response that is due, if one is: a body that can't be
decoded gets one without ID. -/
def due : Except String (Message J) → Option (Option J)
  | .error _ => some none
  | .ok m => m.id.map some

/-- A request that is answered as it should be, or a notification that is
not. -/
def Orderly (m : Message J) : Prop :=
  match m.id, Method.ofString m.method with
  | some _, .init => m.badParams env = none
  | some _, .didOpen | some _, .didSave => m.badParams env ≠ none
  | some _, .unsupported => True
  | some _, _ => False
  | none, .init | none, .shutdown => False
  | none, _ => True

/-- A response: a message without method. -/
def responses (out : List (Message J)) : List (Message J) := out.filter fun r => r.method == ""

/-- It has a result or an error, and not both. -/
def Message.Proper (r : Message J) : Prop := r.result.isSome = true ↔ r.error = none

@[simp] theorem responses_append (out out' : List (Message J)) :
    responses (out ++ out') = responses out ++ responses out' := List.filter_append ..

@[simp] theorem responses_notify (method : String) (hm : method ≠ "") (params : List J) :
    responses (params.map (notify method)) = [] := by
  simp [responses, notify, hm]

/-- One message is answered once if it has an ID, and not at all
otherwise. -/
theorem handle_responses {m : Message J} (hm : Orderly env m)
    (hexit : Method.ofString m.method ≠ .exit) : (handle env s m).2.2 = none ∧
    (responses (handle env s m).2.1).map (·.id) = (due (.ok m)).toList ∧
    ∀ r ∈ responses (handle env s m).2.1, r.Proper ∧ r.id ≠ none := by
  have hresponse (r : Message J) (hr : r.method = "") : responses [r] = [r] := by
    simp [responses, hr]
  unfold Orderly at hm
  unfold handle
  cases hmethod : Method.ofString m.method with
  | init =>
    cases hid : m.id with
    | none => simp [hid, hmethod] at hm
    | some i =>
      have hbad : m.badParams env = none := by simpa [hid, hmethod] using hm
      have hhint : responses (if env.arenasEnabled then []
          else [notify "window/logMessage" env.arenasHint]) = [] := by
        split
        · rfl
        · exact responses_notify "window/logMessage" (by decide) [env.arenasHint]
      have hout : responses (handleInitialize env s m).2 =
          [respond (some i) (some env.initializeResult)] := by
        rw [handleInitialize, responses_append, responses_append, hhint, unmarshalParams, hbad, hid]
        rfl
      exact ⟨rfl, by simp [hout, due, hid, respond], by simp [hout, respond, Message.Proper]⟩
  | initialized | didClose =>
    cases hid : m.id with
    | none => exact ⟨rfl, by simp [responses, due, hid], by simp [responses]⟩
    | some => simp [hid, hmethod] at hm
  | didOpen | didSave =>
    cases hid : m.id with
    | none =>
      have hout : responses (handleDocument env s m).2 = [] := by
        unfold handleDocument
        split
        · unfold unmarshalParams
          rw [hid]
          cases m.badParams env <;> rfl
        · exact responses_notify _ (by decide) _
      exact ⟨rfl, by simp [hout, due, hid], by simp [hout]⟩
    | some i =>
      obtain ⟨e, hbad⟩ := Option.ne_none_iff_exists'.mp (by simpa [hid, hmethod] using hm)
      have hout : responses (handleDocument env s m).2 =
          [respondError (some i) (-32600) ("invalid params: " ++ e)] := by
        rw [handleDocument, if_pos (by rw [hbad]; rfl), unmarshalParams, hbad, hid]
        rfl
      exact ⟨rfl, by simp [hout, due, hid, respondError], by simp [hout, respondError, Message.Proper]⟩
  | shutdown => cases hid : m.id <;> simp [hid, hmethod] at hm
  | exit => exact absurd hmethod hexit
  | unsupported =>
    cases hid : m.id with
    | none => exact ⟨rfl, by simp [responses, due, hid], by simp [responses]⟩
    | some =>
      exact ⟨rfl, by simp [hresponse, due, hid, respondError],
        by simp [hresponse, respondError, Message.Proper]⟩

/-- **Every request is answered exactly once**, if each message is one that
the handlers treat so: the IDs of the responses are those of the requests
before `exit`, in order; a response has either a result or an error; and one
without an ID is a parse error. -/
theorem requests_answered_once (ms : List (Except String (Message J)))
    (hms : ∀ m, .ok m ∈ received ms → Orderly env m) :
    (responses (handleAll env s ms).1).map (·.id) = (received ms).filterMap due ∧
    ∀ r ∈ responses (handleAll env s ms).1, r.Proper ∧
      (r.id = none → ∃ e, .error e ∈ received ms ∧ r = respondError none (-32700) e) := by
  induction ms generalizing s with
  | nil => exact ⟨rfl, by simp [handleAll, responses]⟩
  | cons x ms ih =>
    cases x with
    | error e =>
      have hrec : received (.error e :: ms) = .error e :: received ms := rfl
      rw [hrec] at hms ⊢
      obtain ⟨hids, hall⟩ := ih s fun m hm => hms m (List.mem_cons_of_mem _ hm)
      have hout : responses (handleAll env s (.error e :: ms)).1 =
          respondError none (-32700) e :: responses (handleAll env s ms).1 := rfl
      rw [hout]
      refine ⟨by simp [hids, due, respondError], fun r hr => ?_⟩
      rcases List.mem_cons.mp hr with rfl | hr
      · exact ⟨by simp [respondError, Message.Proper], fun _ => ⟨e, List.mem_cons_self, rfl⟩⟩
      · obtain ⟨hp, hnone⟩ := hall r hr
        exact ⟨hp, fun h => (hnone h).imp fun e he => ⟨List.mem_cons_of_mem _ he.1, he.2⟩⟩
    | ok m =>
      by_cases hexit : Method.ofString m.method = .exit
      · have hrec : received (.ok m :: ms) = [] := by simp [received, hexit]
        have hout : (handleAll env s (.ok m :: ms)).1 = [] := by simp [handleAll, handle, hexit]
        rw [hrec, hout]
        exact ⟨rfl, by simp [responses]⟩
      · have hrec : received (.ok m :: ms) = .ok m :: received ms := by simp [received, hexit]
        rw [hrec] at hms ⊢
        obtain ⟨hnone, hids, hall⟩ := handle_responses env s (hms m List.mem_cons_self) hexit
        obtain ⟨hids', hall'⟩ := ih (handle env s m).1 fun m hm => hms m (List.mem_cons_of_mem _ hm)
        have hout : (handleAll env s (.ok m :: ms)).1 =
            (handle env s m).2.1 ++ (handleAll env (handle env s m).1 ms).1 := by
          rw [handleAll]
          split
          · rename_i h
            rw [h] at hnone
            cases hnone
          · rename_i h
            rw [h]
        rw [hout, responses_append]
        refine ⟨?_, fun r hr => ?_⟩
        · rw [List.map_append, hids, hids']
          cases hdue : due (.ok m) <;> simp [hdue]
        · rcases List.mem_append.mp hr with hr | hr
          · exact ⟨(hall r hr).1, fun h => absurd h (hall r hr).2⟩
          · obtain ⟨hp, hnone⟩ := hall' r hr
            exact ⟨hp, fun h => (hnone h).imp fun e he => ⟨List.mem_cons_of_mem _ he.1, he.2⟩⟩

/-- A server for examples: JSON values are numbers, and zero is no params. -/
def natEnv : Env Nat Unit where
  paramsError _ params := if params = 0 then some "" else none
  enterRoot _ w := w
  arenasEnabled := false
  arenasHint := 0
  initializeResult := 1
  analyze w := (w, [2])

theorem requests_answered_once_init :
    let ms : List (Except String (Message Nat)) := [.ok { id := some 7, method := "initialize" },
      .error "", .ok { method := "initialized" }, .ok { id := some 8, method := "hover" }]
    (responses (handleAll natEnv ⟨false, ()⟩ ms).1).map (·.id) = (received ms).filterMap due ∧
    (received ms).filterMap due = [some 7, none, some 8] := by
  refine ⟨(requests_answered_once natEnv ⟨false, ()⟩ _ ?_).1, rfl⟩
  intro m hm
  have hin := List.takeWhile_subset _ hm
  simp only [List.mem_cons, List.not_mem_nil, or_false, Except.ok.injEq, reduceCtorEq,
    false_or] at hin
  rcases hin with rfl | rfl | rfl
  · exact rfl
  · trivial
  · trivial

/-- `shutdown` is answered with neither a result nor an error, a second
response follows the error of `initialize`, a notification with an ID gets
none, and `initialize` without an ID is answered. -/
theorem requests_answered_otherwise :
    (handleAll natEnv ⟨false, ()⟩ [.ok { id := some 7, method := "shutdown" }]).1 =
      [{ id := some 7 }] ∧
    (responses (handleAll natEnv ⟨false, ()⟩
      [.ok { id := some 7, method := "initialize", params := some 0 }]).1).map (·.id) =
      [some 7, some 7] ∧
    responses (handleAll natEnv ⟨false, ()⟩
      [.ok { id := some 7, method := "textDocument/didClose" }]).1 = [] ∧
    responses (handleAll natEnv ⟨false, ()⟩ [.ok { method := "initialize" }]).1 =
      [{ result := some 1 }] := by
  refine ⟨?_, ?_, ?_, ?_⟩ <;> decide

/-- The JSON text of a notification without params. -/
def notification (m : Message Nat) : Bytes :=
  ascii ("\x7b\"jsonrpc\":\"2.0\",\"method\":\"".toList ++ m.method.toList ++ "\"\x7d".toList)

/-- The messages of two such texts. -/
def decodeNotification (body : Bytes) : Except String (Message Nat) :=
  match ["initialized", "exit"].find? fun method => notification { method } == body with
  | some method => .ok { jsonrpc := "2.0", method }
  | none => .error "invalid character"

/-- A frame with a second header. -/
def typedFrame (body : Bytes) (int : body.length < 2 ^ 63) : Frame where
  before := [ascii "Content-Type: json\r".toList]
  name := ascii "content-length".toList
  pad := [32]
  pad' := [13]
  after := []
  sep := [13]
  body
  extra := by
    intro line hline
    cases List.mem_singleton.mp hline
    refine ⟨by decide, ⟨67, by decide⟩, fun name value heq hname => ?_⟩
    have hcut := cut_append hname value
    rw [← heq] at hcut
    cases hcut
    decide
  contentLength := by decide
  blank := by simp [Blank]
  empty := by simp
  int

/-- Two notifications, and a body between them that is no JSON. -/
theorem framing_in_sync_notifications :
    let fs := [typedFrame (notification { method := "initialized" }) (by decide),
      typedFrame (ascii "\x7b".toList) (by decide),
      typedFrame (notification { method := "exit" }) (by decide)]
    let ms : List (Message Nat) := [{ method := "initialized" }, { method := "exit" }]
    readMessages decodeNotification 3 (fs.flatMap Frame.bytes ++ [1]) =
      ([.ok { jsonrpc := "2.0", method := "initialized" }, .error (.parse "invalid character"),
        .ok { jsonrpc := "2.0", method := "exit" }], [1]) ∧
    (serve natEnv decodeNotification ⟨false, ()⟩ (fs.flatMap Frame.bytes)).1 =
      [respondError none (-32700) "invalid character"] ∧
    readMessages decodeNotification 2 (ms.flatMap (write notification) ++ [1]) =
      (ms.map fun m => .ok m.stamped, [1]) := by
  intro fs ms
  obtain ⟨hread, hserve, hwrite⟩ := framing_in_sync natEnv decodeNotification fs
  refine ⟨(hread [1]).trans (by decide), ?_, hwrite notification ms (by decide) [1]⟩
  rw [hserve]
  decide

end Giri.Lsp
