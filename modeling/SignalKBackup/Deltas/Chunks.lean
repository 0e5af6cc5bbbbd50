import SignalKBackup.Deltas.Stream
import SignalKBackup.Lib.Transducer

/-!
# Chunks — the read loop of a connection

`connect` decodes each chunk of the response, adds the text to the carry-over `buffer`, and hands the
event of each complete frame to `handleEvent`.  A `Reader` is a connection in that loop.

* `Cuts` is what the server means by a stream: frames that each end at the first blank line, and an
  unfinished rest;
* `cutFrames_cuts` and `Cuts.cutFrames` say that `cutFrames` finds just this division;
* `framer` is the framing as a transducer, so that a reader handles what the transducer of its decoder
  and `framer` puts out (`Reader.readAll_handles`), wherever the chunks end;
* `Reader.At.handleChunk` says that a read is the `handleChunk` of the subscribers.

`D` is the `TextDecoder`, `parse` is `JSON.parse`, and `handleEvent` may throw; both come with the
message of what they throw.
-/

namespace SignalKBackup
namespace Deltas

open Lib

/-! ## Frames of a stream -/

def separator : List Char :=
  ['\n', '\n']

/-- The frames of a text and its unfinished rest. -/
structure Cuts (text : List Char) (frames : List (List Char)) (rest : List Char) : Prop where
  text_eq : text = (frames.flatMap fun frame => frame ++ separator) ++ rest
  /-- A frame ends at the first blank line. -/
  first : ∀ frame ∈ frames, ¬separator <:+: frame ++ ['\n']
  unfinished : ¬separator <:+: rest

theorem separator_infix_cons {c : Char} {text : List Char} :
    separator <:+: c :: text ↔ (c = '\n' ∧ text.head? = some '\n') ∨ separator <:+: text := by
  -- a blank line starts at the first character, or behind it
  have hhead : separator <+: c :: text ↔ c = '\n' ∧ text.head? = some '\n' := by
    cases text with
    | nil =>
        simp [separator]
    | cons d text =>
        simp [separator, List.cons_prefix_cons, eq_comm]
  rw [List.infix_cons_iff, hhead]

theorem cutFrame_eq_none {text : List Char} : cutFrame text = none ↔ ¬separator <:+: text := by
  fun_induction cutFrame text with
  | case1 =>
      simp [separator]
  | case2 rest =>
      simp [separator_infix_cons]
  | case3 c tail hother ih =>
      -- the case before this one has taken the blank line
      have hnot : ¬(c = '\n' ∧ tail.head? = some '\n') := by
        rintro ⟨hc, hhead⟩
        rcases List.head?_eq_some_iff.1 hhead with ⟨rest, hrest⟩
        exact hother rest hc hrest
      rw [Option.map_eq_none_iff, ih, separator_infix_cons]
      tauto

/-- A frame that ends at the first blank line is the one that is cut off. -/
theorem cutFrame_append {frame rest : List Char} (hfirst : ¬separator <:+: frame ++ ['\n']) :
    cutFrame (frame ++ separator ++ rest) = some (frame, rest) := by
  induction frame with
  | nil =>
      rfl
  | cons c frame ih =>
      rw [List.cons_append, separator_infix_cons, not_or] at hfirst
      -- no blank line starts at `c`
      have hother : ∀ tail, c = '\n' → frame ++ separator ++ rest = '\n' :: tail → False := by
        intro tail hc htail
        refine hfirst.1 ⟨hc, ?_⟩
        cases frame with
        | nil =>
            rfl
        | cons d frame =>
            rw [List.cons_append, List.cons_append, List.cons.injEq] at htail
            simp [htail.1]
      rw [List.cons_append, List.cons_append, cutFrame]
      · rw [ih hfirst.2]
        rfl
      · exact hother

theorem cutFrame_sound {text frame rest : List Char} (h : cutFrame text = some (frame, rest)) :
    text = frame ++ separator ++ rest ∧ ¬separator <:+: frame ++ ['\n'] := by
  fun_induction cutFrame text generalizing frame with
  | case1 =>
      cases h
  | case2 tail =>
      cases h
      exact ⟨rfl, fun hinfix => by simpa [separator] using hinfix.length_le⟩
  | case3 c tail hother ih =>
      rcases Option.map_eq_some_iff.1 h with ⟨⟨frame', rest'⟩, hcut, heq⟩
      cases heq
      rcases ih hcut with ⟨htail, hfirst⟩
      refine ⟨by rw [htail]; rfl, ?_⟩
      rw [List.cons_append, separator_infix_cons, not_or]
      refine ⟨?_, hfirst⟩
      rintro ⟨hc, hhead⟩
      -- then the text would start with a blank line
      rcases List.head?_eq_some_iff.1 hhead with ⟨_, hnl⟩
      cases frame' with
      | nil =>
          exact hother _ hc htail
      | cons d frame' =>
          cases hnl
          exact hother _ hc htail

theorem cutFrames_cuts {fuel : ℕ} {text : List Char} (hfuel : text.length ≤ fuel) :
    Cuts text (cutFrames fuel text).1 (cutFrames fuel text).2 := by
  -- by induction on the fuel; what is left has no complete frame at any fuel that is enough
  have hopen := cutFrame_eq_none.1 (cutFrames_complete hfuel)
  induction fuel generalizing text with
  | zero =>
      exact ⟨rfl, by simp [cutFrames], hopen⟩
  | succ fuel ih =>
      unfold cutFrames at hopen ⊢
      cases hcut : cutFrame text with
      | none =>
          simp only [hcut] at hopen
          exact ⟨rfl, by simp, hopen⟩
      | some r =>
          rcases r with ⟨frame, rest⟩
          simp only [hcut] at hopen
          rcases cutFrame_sound hcut with ⟨htext, hfirst⟩
          have hshorter := cutFrame_length hcut
          have hrest : Cuts rest _ _ := ih (by omega) hopen
          refine ⟨?_, ?_, hopen⟩
          · rw [htext, List.flatMap_cons, List.append_assoc _ _ (cutFrames fuel rest).2]
            exact congrArg _ hrest.text_eq
          · simpa [hfirst] using hrest.first

theorem Cuts.cutFrames {text rest : List Char} {frames : List (List Char)}
    (h : Cuts text frames rest) {fuel : ℕ} (hfuel : text.length ≤ fuel) :
    Deltas.cutFrames fuel text = (frames, rest) := by
  induction frames generalizing text fuel with
  | nil =>
      have htext : text = rest := by simpa using h.text_eq
      subst htext
      have hnone := cutFrame_eq_none.2 h.unfinished
      cases fuel with
      | zero =>
          rfl
      | succ fuel =>
          simp only [Deltas.cutFrames, hnone]
  | cons frame frames ih =>
      have htext : text = frame ++ separator ++
          ((frames.flatMap fun frame => frame ++ separator) ++ rest) := by
        simpa using h.text_eq
      have hcut : cutFrame text = some (frame, _) :=
        htext ▸ cutFrame_append (h.first frame (by simp))
      have hshorter := cutFrame_length hcut
      -- the text behind the first frame is divided as before
      have htail : Cuts ((frames.flatMap fun frame => frame ++ separator) ++ rest) frames rest :=
        ⟨rfl, fun f hf => h.first f (by simp [hf]), h.unfinished⟩
      cases fuel with
      | zero =>
          omega
      | succ fuel =>
          have hmore : Deltas.cutFrames fuel _ = _ := ih htail (by omega)
          simp only [Deltas.cutFrames, hcut, hmore]

/-- A text has one division into frames. -/
theorem Cuts.unique {text rest rest' : List Char} {frames frames' : List (List Char)}
    (h : Cuts text frames rest) (h' : Cuts text frames' rest') : frames = frames' ∧ rest = rest' := by
  have hsame := (h.cutFrames le_rfl).symm.trans (h'.cutFrames le_rfl)
  exact Prod.mk.inj hsame

/-- The text behind the unfinished rest completes it. -/
theorem Cuts.append {text rest more rest' : List Char} {frames frames' : List (List Char)}
    (h : Cuts text frames rest) (h' : Cuts (rest ++ more) frames' rest') :
    Cuts (text ++ more) (frames ++ frames') rest' := by
  refine ⟨?_, ?_, h'.unfinished⟩
  · rw [List.flatMap_append, List.append_assoc, ← h'.text_eq, ← List.append_assoc, ← h.text_eq]
  · intro frame hframe
    rcases List.mem_append.1 hframe with hmem | hmem
    · exact h.first frame hmem
    · exact h'.first frame hmem

/-- The carry-over buffer never holds a complete frame. -/
def framer : Transducer Char (List Char) where
  State := { buffer : List Char // ¬separator <:+: buffer }
  start := ⟨[], by simp [separator]⟩
  feed buffer text :=
    let r := cutFrames (buffer.1 ++ text).length (buffer.1 ++ text)
    (⟨r.2, cutFrame_eq_none.1 (cutFrames_complete le_rfl)⟩, r.1)
  feed_nil buffer := by
    have hopen : Cuts (buffer.1 ++ []) [] buffer.1 := ⟨by simp, by simp, buffer.2⟩
    -- a piece without text completes no frame
    simp only [hopen.cutFrames le_rfl]
  feed_append buffer xs ys := by
    have hfirst : Cuts (buffer.1 ++ xs) _ _ := cutFrames_cuts le_rfl
    have hsecond : Cuts ((cutFrames (buffer.1 ++ xs).length (buffer.1 ++ xs)).2 ++ ys) _ _ :=
      cutFrames_cuts le_rfl
    have hboth := hfirst.append hsecond
    -- the frames of both pieces divide the whole text, and there is one such division
    rw [List.append_assoc] at hboth
    simp only [hboth.cutFrames le_rfl]

/-! ## The read loop -/

/-- A connection behind its head: `decoder` and `buffer` are the locals of `connect`, and `emitter`
is what `handleEvent` works on.  `passed` records the events that were given to it. -/
structure Reader (D : Transducer UInt8 Char) (σ γ : Type) where
  decoder : D.State := D.start
  buffer : List Char := []
  /-- `s.stopped`, which `handleEvent` does not write. -/
  stopped : Bool := false
  emitter : σ
  passed : List γ := []
  /-- What `app.debug` was given. -/
  log : List String := []

namespace Reader

variable {D : Transducer UInt8 Char} {σ γ : Type} (parse : List Char → Except String γ)
  (handleEvent : σ → γ → σ × Option String) (r : Reader D σ γ)

def debug (message : String) : Reader D σ γ :=
  { r with log := r.log ++ ["[signalk-deltas] failed to parse SSE frame: " ++ message] }

/-- One frame: its event is handled, and what parsing or handling throws is caught. -/
def takeFrame (frame : List Char) : Reader D σ γ :=
  match frameData frame with
  | none => r
  | some data =>
      match parse data with
      | .error message => r.debug message
      | .ok event =>
          let h := handleEvent r.emitter event
          let r := { r with emitter := h.1, passed := r.passed ++ [event] }
          match h.2 with
          | none => r
          | some message => r.debug message

/-- The inner loop; every frame takes one unit of fuel. -/
def takeFrames : ℕ → Reader D σ γ → Reader D σ γ
  | 0, r => r
  | fuel + 1, r =>
      match cutFrame r.buffer with
      | none => r
      | some (frame, rest) =>
          takeFrames fuel ({ r with buffer := rest }.takeFrame parse handleEvent frame)

/-- One round of the outer loop, with the chunk that `read()` resolves with. -/
def read (chunk : List UInt8) : Reader D σ γ :=
  if r.stopped then r
  else
    let t := D.feed r.decoder chunk
    let buffer := r.buffer ++ t.2
    { r with decoder := t.1, buffer := buffer }.takeFrames parse handleEvent buffer.length

def readAll (chunks : List (List UInt8)) : Reader D σ γ :=
  chunks.foldl (fun r chunk => r.read parse handleEvent chunk) r

/-- The event of a frame that has data lines and parses. -/
def frameEvent (frame : List Char) : Option γ :=
  (frameData frame).bind fun data => (parse data).toOption

/-! ## What a frame changes -/

variable {parse r} {r' r'' : Reader D σ γ}

/-- From `r` to `r'` these events were handled. -/
structure Handles (r r' : Reader D σ γ) (events : List γ) : Prop where
  passed : r'.passed = r.passed ++ events
  emitter : r'.emitter = events.foldl (fun s event => (handleEvent s event).1) r.emitter

/-- The reader runs, with this decoder and this buffer. -/
structure At (r : Reader D σ γ) (decoder : D.State) (buffer : List Char) : Prop where
  decoder : r.decoder = decoder
  buffer : r.buffer = buffer
  running : r.stopped = false

variable {handleEvent}

theorem Handles.trans {events events' : List γ} (h : Handles handleEvent r r' events)
    (h' : Handles handleEvent r' r'' events') : Handles handleEvent r r'' (events ++ events') := by
  refine ⟨?_, ?_⟩
  · rw [h'.passed, h.passed, List.append_assoc]
  · rw [h'.emitter, h.emitter, List.foldl_append]

theorem Handles.none (hpassed : r'.passed = r.passed) (hemitter : r'.emitter = r.emitter) :
    Handles handleEvent r r' [] :=
  ⟨by rw [hpassed, List.append_nil], hemitter⟩

variable (parse) in
/-- A frame that does not parse adds no event; one whose handling throws adds its own like any
other. -/
theorem takeFrame_handles (frame : List Char) :
    Handles handleEvent r (r.takeFrame parse handleEvent frame) (frameEvent parse frame).toList := by
  -- a frame without data lines is skipped, one that does not parse is logged
  have hsame : Handles handleEvent r r [] := .none rfl rfl
  unfold takeFrame frameEvent
  cases frameData frame with
  | none =>
      exact hsame
  | some data =>
      rw [Option.bind_some]
      cases hparse : parse data with
      | error message =>
          simp only [hparse]
          exact ⟨hsame.passed, hsame.emitter⟩
      | ok event =>
          simp only [hparse]
          cases (handleEvent r.emitter event).2 with
          | none =>
              exact ⟨rfl, rfl⟩
          | some message =>
              exact ⟨rfl, rfl⟩

variable (parse handleEvent) in
theorem At.takeFrame {decoder : D.State} {buffer : List Char} (h : r.At decoder buffer)
    (frame : List Char) : (r.takeFrame parse handleEvent frame).At decoder buffer := by
  unfold Reader.takeFrame
  split
  case h_1 =>
      exact h
  case h_2 data =>
      split
      case h_1 =>
          exact ⟨h.decoder, h.buffer, h.running⟩
      case h_2 event =>
          dsimp only
          split <;> exact ⟨h.decoder, h.buffer, h.running⟩

variable (parse handleEvent) in
/-- The inner loop handles the events of the complete frames. -/
theorem At.takeFrames {decoder : D.State} {buffer : List Char} (h : r.At decoder buffer)
    (fuel : ℕ) :
    Handles handleEvent r (r.takeFrames parse handleEvent fuel)
        ((cutFrames fuel buffer).1.filterMap (frameEvent parse)) ∧
      (r.takeFrames parse handleEvent fuel).At decoder (cutFrames fuel buffer).2 := by
  induction fuel generalizing r buffer with
  | zero =>
      exact ⟨.none rfl rfl, h⟩
  | succ fuel ih =>
      unfold Reader.takeFrames cutFrames
      rw [h.buffer]
      cases hcut : cutFrame buffer with
      | none =>
          exact ⟨.none rfl rfl, h⟩
      | some cut =>
          rcases cut with ⟨frame, rest⟩
          let behind : Reader D σ γ := { r with buffer := rest }
          have hbehind : behind.At decoder rest := ⟨h.decoder, rfl, h.running⟩
          have hframe : Handles handleEvent behind _ _ :=
            takeFrame_handles parse frame
          rcases ih (hbehind.takeFrame parse handleEvent frame) with
            ⟨hmore, hat⟩
          -- this frame, then the ones behind it
          have hall := hframe.trans hmore
          have hcons : (frame :: (cutFrames fuel rest).1).filterMap (frameEvent parse) =
              (frameEvent parse frame).toList ++
                (cutFrames fuel rest).1.filterMap (frameEvent parse) := by
            cases hevent : frameEvent parse frame <;> simp [hevent]
          refine ⟨?_, hat⟩
          rw [hcons]
          exact ⟨hall.passed, hall.emitter⟩

/-! ## Any chunks -/

variable (D parse)

/-- The events of a stream of bytes. -/
def events : Transducer UInt8 γ :=
  (D.andThen framer).filterMap (frameEvent parse)

variable {D parse}

variable (handleEvent) in
/-- One read is one step of `events`. -/
theorem At.read {q : (events D parse).State} (h : r.At q.1 q.2.1) (chunk : List UInt8) :
    Handles handleEvent r (r.read parse handleEvent chunk) ((events D parse).feed q chunk).2 ∧
      (r.read parse handleEvent chunk).At ((events D parse).feed q chunk).1.1
        ((events D parse).feed q chunk).1.2.1 := by
  rcases q with ⟨decoder, buffer⟩
  let text := (D.feed decoder chunk).2
  let decoded : Reader D σ γ :=
    { r with decoder := (D.feed decoder chunk).1, buffer := buffer.1 ++ text }
  have hdecoded : decoded.At (D.feed decoder chunk).1 (buffer.1 ++ text) := ⟨rfl, rfl, h.running⟩
  -- the reader runs, so that the chunk is taken
  have hread : r.read parse handleEvent chunk =
      decoded.takeFrames parse handleEvent (buffer.1 ++ text).length := by
    unfold Reader.read
    rw [if_neg (by simp [h.running]), h.decoder, h.buffer]
  rw [hread]
  rcases hdecoded.takeFrames parse handleEvent
    (buffer.1 ++ text).length with ⟨hhandles, hat⟩
  exact ⟨⟨hhandles.passed, hhandles.emitter⟩, hat⟩

variable (handleEvent) in
theorem At.readAll {q : (events D parse).State} (h : r.At q.1 q.2.1) (chunks : List (List UInt8)) :
    Handles handleEvent r (r.readAll parse handleEvent chunks)
      ((events D parse).feedAll q chunks).2 := by
  induction chunks generalizing r q with
  | nil =>
      exact .none rfl rfl
  | cons chunk chunks ih =>
      rcases h.read handleEvent chunk with ⟨hfirst, hat⟩
      exact hfirst.trans (ih hat)

variable (handleEvent) in
/-- However a stream is cut into chunks, the events of the whole stream are handled. -/
theorem readAll_handles (emitter : σ) (chunks : List (List UInt8)) :
    Handles handleEvent { emitter := emitter : Reader D σ γ }
      ({ emitter := emitter : Reader D σ γ }.readAll parse handleEvent chunks)
      ((events D parse).output chunks.flatten) := by
  -- decoder and buffer start afresh with the connection
  have hstart : { emitter := emitter : Reader D σ γ }.At (events D parse).start.1
      (events D parse).start.2.1 := ⟨rfl, rfl, rfl⟩
  have hall := hstart.readAll handleEvent chunks
  rw [Transducer.feedAll_eq] at hall
  exact hall

variable (D parse) in
/-- The events of a stream are those of its complete frames. -/
theorem events_output (bytes : List UInt8) :
    ∃ frames rest, Cuts (D.output bytes) frames rest ∧
      (events D parse).output bytes = frames.filterMap (frameEvent parse) :=
  ⟨_, _, cutFrames_cuts le_rfl, rfl⟩

/-- The events passed to `handleEvent` are those of the complete frames of the whole stream that
have data lines and parse, wherever the chunks end and whatever `handleEvent` does. -/
theorem readAll_passed (D : Transducer UInt8 Char) {σ γ : Type}
    (parse : List Char → Except String γ) (handleEvent : σ → γ → σ × Option String) (emitter : σ)
    (chunks : List (List UInt8)) :
    let r : Reader D σ γ := { emitter := emitter }
    (r.readAll parse handleEvent chunks).passed =
        (r.readAll parse handleEvent [chunks.flatten]).passed ∧
      ∃ frames rest, Cuts (D.output chunks.flatten) frames rest ∧
        (r.readAll parse handleEvent chunks).passed = frames.filterMap (frameEvent parse) := by
  intro r
  have hcut : (r.readAll parse handleEvent chunks).passed =
      (events D parse).output chunks.flatten :=
    (readAll_handles handleEvent emitter chunks).passed
  -- one chunk is a way to cut the stream like any other
  have hwhole : (r.readAll parse handleEvent [chunks.flatten]).passed =
      (events D parse).output chunks.flatten := by
    have hone : (r.readAll parse handleEvent [chunks.flatten]).passed =
        [] ++ (events D parse).output [chunks.flatten].flatten :=
      (readAll_handles handleEvent emitter [chunks.flatten]).passed
    simpa using hone
  refine ⟨hcut.trans hwhole.symm, ?_⟩
  rcases events_output D parse chunks.flatten with ⟨frames, rest, hcuts, heq⟩
  exact ⟨frames, rest, hcuts, hcut.trans heq⟩

/-- Three frames, cut inside a character and inside a separator: the second does not parse, and
handling throws each time. -/
example :
    let ascii (text : String) : List UInt8 := text.toList.map fun c => UInt8.ofNat c.toNat
    let parse : List Char → Except String Char
      | ['"', c, '"'] => .ok c
      | _ => .error "Unexpected token"
    let r := ({ emitter := () } : Reader utf8 Unit Char).readAll parse (fun _ _ => ((), some "no"))
      [ascii "data: \"" ++ [0xC3], 0xA9 :: ascii "\"\n", ascii "\ndata:x\n\n: alive\ndata: \"a",
        ascii "\"\n\n"]
    r.passed = ['é', 'a'] ∧ r.log.length = 3 := by
  decide

/-! ## The subscribers of the event stream -/

/-- `handleEvent` on the emitter of a subscriber, with the clock readings of a chunk. -/
def clocked (clock : ℕ → ℤ) (s : World × ℕ) (event : Event) : (World × ℕ) × Option String :=
  ((s.1.handleEvent (clock s.2) event, s.2 + 1), none)

theorem clocked_foldl (clock : ℕ → ℤ) (w : World) (n : ℕ) (events : List Event) :
    (events.foldl (fun s event => (clocked clock s event).1) (w, n)).1 =
      w.handleEvents ((events.zipIdx n).map fun e => (e.1, clock e.2)) := by
  induction events generalizing w n with
  | nil =>
      rfl
  | cons event events ih =>
      exact ih (w.handleEvent (clock n) event) (n + 1)

/-- A read of a subscriber's connection is `handleChunk` with the text of the chunk. -/
theorem At.handleChunk {D : Transducer UInt8 Char} {parse : List Char → Except String Event}
    {s : Streams} {u : Subscriber} {r : Reader D (World × ℕ) Event} {q : (events D parse).State}
    (h : r.At q.1 q.2.1) (hbuffer : q.2.1 = u.buffer)
    (hemitter : r.emitter = ({ emitter := u.emitter, deltas := s.deltas }, 0))
    (i : ℕ) (clock : ℕ → ℤ) (chunk : List UInt8) :
    let r' := r.read parse (clocked clock) chunk
    s.handleChunk (fun data => (parse data).toOption) i u (D.feed q.1 chunk).2 clock =
      { s with
        subscribers := s.subscribers.set i
          { u with emitter := r'.emitter.1.emitter, buffer := r'.buffer : Subscriber }.readNext
        deltas := r'.emitter.1.deltas } := by
  intro r'
  rcases h.read (clocked clock) chunk with ⟨hhandles, hat⟩
  have hworld := congrArg Prod.fst hhandles.emitter
  rw [hemitter, clocked_foldl] at hworld
  -- both cut the same buffer
  have htake : takeChunk (fun data => (parse data).toOption) u.buffer (D.feed q.1 chunk).2 =
      (((events D parse).feed q chunk).2, ((events D parse).feed q chunk).1.2.1) := by
    rw [← hbuffer]
    rfl
  unfold Streams.handleChunk
  rw [htake, ← hat.buffer]
  simp only [← hworld]
  rfl

end Reader

end Deltas
end SignalKBackup
