import QAuth.Foundation.Bytes

/-!
# Frames

The frames of the channel between the pool and a fetch process, of `exchange.ts`: how one is
written, and the reader that takes them from the chunks of a stream. The reader's rules may do
anything; they are computations in a monad.
-/

namespace QAuth.Egress

/-- The bytes of a frame's header: its type and its payload's length. -/
def FRAME_HEADER_BYTES : ℕ := 5

/-- The largest payload a frame's four-byte length can announce. -/
def MAX_FRAME_PAYLOAD_BYTES : ℕ := 0xffffffff

namespace FRAME

/-- First, once. -/
def init : ℕ := 1

/-- One exchange at a time. -/
def exchange : ℕ := 2

/-- Once, after `init`, empty. -/
def ready : ℕ := 3

/-- The id of an exchange whose TLS handshake is done. -/
def secured : ℕ := 4

/-- The outcome of an exchange that has a response. -/
def response : ℕ := 5

/-- The outcome of an exchange that failed. -/
def failure : ℕ := 6

end FRAME

/-- A frame of a type with some parts as its payload: the buffers to write, unless it is too large. -/
def encodeFrame (type : ℕ) (parts : List (List UInt8)) : Option (List (List UInt8)) :=
  let length := (parts.map List.length).sum
  if MAX_FRAME_PAYLOAD_BYTES < length then none
  else some ((Bytes.be 1 type ++ Bytes.be 4 length) :: parts.filter fun part ↦ 0 < part.length)

/-- How a frame reader treats the frames of its channel. -/
structure FrameRules (m : Type → Type) where
  /-- The largest payload a frame of a type may carry now, if one may come now. -/
  limit : ℕ → m (Option ℕ)
  /-- A whole frame; `false` stops the reader. -/
  frame : ℕ → List UInt8 → m Bool
  /-- A frame refused from its header. -/
  refuse : ℕ → ℕ → Bool → m Unit

/-- Where a frame reader is between two chunks. -/
inductive Reader
  | header (bytes : List UInt8) (h : bytes.length < FRAME_HEADER_BYTES)
  | payload (type length : ℕ) (bytes : List UInt8) (h : bytes.length < length)
  | stopped

/-- The reader before the first frame, and after each. -/
def Reader.start : Reader := .header [] (by decide)

section Push

variable {m : Type → Type} [Monad m] (rules : FrameRules m)

mutual

def readHeader (header : List UInt8) (hheader : header.length < FRAME_HEADER_BYTES)
    (chunk : List UInt8) : m Reader :=
  if _hchunk : chunk = [] then pure (.header header hheader)
  else
    let n := min (FRAME_HEADER_BYTES - header.length) chunk.length
    let bytes := header ++ chunk.take n
    if hbytes : bytes.length < FRAME_HEADER_BYTES then pure (.header bytes hbytes)
    else do
      let type := Der.ofBytes (bytes.take 1)
      let length := Der.ofBytes (bytes.drop 1)
      match ← rules.limit type with
      | none => do
        rules.refuse type length false
        pure .stopped
      | some limit =>
        if limit < length then do
          rules.refuse type length true
          pure .stopped
        else readPayload type length [] (chunk.drop n)
termination_by (chunk.length, 0)
decreasing_by
  have hpos := List.length_pos_of_ne_nil _hchunk
  simp only [List.length_drop, FRAME_HEADER_BYTES] at *
  exact Prod.Lex.left _ _ (by omega)

def readPayload (type length : ℕ) (payload chunk : List UInt8) : m Reader :=
  let n := min (length - payload.length) chunk.length
  let bytes := payload ++ chunk.take n
  if hbytes : bytes.length < length then pure (.payload type length bytes hbytes)
  else do
    if ← rules.frame type bytes then readHeader [] (by decide) (chunk.drop n) else pure .stopped
termination_by (chunk.length, 1)
decreasing_by
  simp only [List.length_drop]
  rcases Nat.eq_or_lt_of_le (Nat.sub_le chunk.length n) with heq | hlt
  · rw [heq]
    exact Prod.Lex.right _ (by decide)
  · exact Prod.Lex.left _ _ hlt

end

/-- Take a chunk of the stream. -/
def push : Reader → List UInt8 → m Reader
  | .header bytes h, chunk => readHeader rules bytes h chunk
  | .payload type length bytes _, chunk => readPayload rules type length bytes chunk
  | .stopped, _ => pure .stopped

/-! ### One chunk -/

variable {rules}

@[simp] theorem readHeader_nil {header : List UInt8} (h : header.length < FRAME_HEADER_BYTES) :
    readHeader rules header h [] = pure (.header header h) := by
  rw [readHeader, dif_pos rfl]

theorem readHeader_of_lt {header chunk : List UInt8} (h : header.length < FRAME_HEADER_BYTES)
    (hlt : (header ++ chunk).length < FRAME_HEADER_BYTES) :
    readHeader rules header h chunk = pure (.header (header ++ chunk) hlt) := by
  have hlen : header.length + chunk.length < FRAME_HEADER_BYTES := by
    rwa [List.length_append] at hlt
  by_cases hchunk : chunk = []
  · subst hchunk
    simp
  · have hn : min (FRAME_HEADER_BYTES - header.length) chunk.length = chunk.length := by omega
    rw [readHeader, dif_neg hchunk]
    simp only [hn, List.take_length]
    rw [dif_pos hlt]

/-- What a reader does with a whole header. -/
def afterHeader (rules : FrameRules m) (header rest : List UInt8) : m Reader := do
  let type := Der.ofBytes (header.take 1)
  let length := Der.ofBytes (header.drop 1)
  match ← rules.limit type with
  | none => do
    rules.refuse type length false
    pure .stopped
  | some limit =>
    if limit < length then do
      rules.refuse type length true
      pure .stopped
    else readPayload rules type length [] rest

theorem readHeader_of_le {header chunk : List UInt8} (h : header.length < FRAME_HEADER_BYTES)
    (hle : FRAME_HEADER_BYTES ≤ header.length + chunk.length) :
    readHeader rules header h chunk =
      afterHeader rules (header ++ chunk.take (FRAME_HEADER_BYTES - header.length))
        (chunk.drop (FRAME_HEADER_BYTES - header.length)) := by
  have hchunk : chunk ≠ [] := by
    rintro rfl
    simp only [List.length_nil] at hle
    omega
  have hn : min (FRAME_HEADER_BYTES - header.length) chunk.length =
      FRAME_HEADER_BYTES - header.length := by omega
  have hfull : ¬ (header ++ chunk.take (FRAME_HEADER_BYTES - header.length)).length <
      FRAME_HEADER_BYTES := by
    rw [List.length_append, List.length_take]
    omega
  rw [readHeader, dif_neg hchunk]
  simp only [hn]
  rw [dif_neg hfull]
  rfl

theorem readPayload_of_lt {type length : ℕ} {payload chunk : List UInt8}
    (hlt : (payload ++ chunk).length < length) :
    readPayload rules type length payload chunk =
      pure (.payload type length (payload ++ chunk) hlt) := by
  have hlen : payload.length + chunk.length < length := by rwa [List.length_append] at hlt
  have hn : min (length - payload.length) chunk.length = chunk.length := by omega
  rw [readPayload]
  simp only [hn, List.take_length]
  rw [dif_pos hlt]

theorem readPayload_of_le {type length : ℕ} {payload chunk : List UInt8}
    (hle : length ≤ payload.length + chunk.length) :
    readPayload rules type length payload chunk = (do
      if ← rules.frame type (payload ++ chunk.take (length - payload.length)) then
        readHeader rules [] (by decide) (chunk.drop (length - payload.length))
      else pure .stopped) := by
  have hn : min (length - payload.length) chunk.length = length - payload.length := by omega
  have hfull : ¬ (payload ++ chunk.take (length - payload.length)).length < length := by
    rw [List.length_append, List.length_take]
    omega
  rw [readPayload]
  simp only [hn]
  rw [dif_neg hfull]

/-! ### Chunks one after the other -/

variable [LawfulMonad m]

/-- A payload is read from two chunks as from both at once, if the rest is. -/
theorem readPayload_append {c₁ : List UInt8}
    (hrest : ∀ rest c₂, rest.length ≤ c₁.length → readHeader rules [] (by decide) (rest ++ c₂) =
      readHeader rules [] (by decide) rest >>= fun r ↦ push rules r c₂)
    (type length : ℕ) (payload c₂ : List UInt8) :
    readPayload rules type length payload (c₁ ++ c₂) =
      readPayload rules type length payload c₁ >>= fun r ↦ push rules r c₂ := by
  by_cases hfill : length ≤ payload.length + c₁.length
  · have hle : length - payload.length ≤ c₁.length := by omega
    rw [readPayload_of_le hfill, readPayload_of_le (by rw [List.length_append]; omega),
      List.take_append_of_le_length hle, List.drop_append_of_le_length hle, bind_assoc]
    refine bind_congr fun more ↦ ?_
    cases more with
    | false => simp [push]
    | true =>
      simp only [if_true]
      exact hrest _ c₂ (by rw [List.length_drop]; omega)
  · have hlt : (payload ++ c₁).length < length := by
      rw [List.length_append]
      omega
    rw [readPayload_of_lt hlt, pure_bind, push]
    by_cases hfill' : length ≤ payload.length + (c₁ ++ c₂).length
    · have hge : c₁.length ≤ length - payload.length := by omega
      have hsub : length - payload.length - c₁.length = length - (payload ++ c₁).length := by
        rw [List.length_append]
        omega
      rw [readPayload_of_le hfill', readPayload_of_le (by simpa [Nat.add_assoc] using hfill'),
        List.take_append, List.take_of_length_le hge, List.drop_append,
        List.drop_eq_nil_of_le hge, List.nil_append, ← List.append_assoc, hsub]
    · have hlt' : (payload ++ (c₁ ++ c₂)).length < length := by
        rw [List.length_append]
        omega
      rw [readPayload_of_lt hlt', readPayload_of_lt (by rwa [List.append_assoc])]
      simp only [List.append_assoc]

/-- A header is read from two chunks as from both at once. -/
theorem readHeader_append {header : List UInt8} (h : header.length < FRAME_HEADER_BYTES)
    (c₁ c₂ : List UInt8) :
    readHeader rules header h (c₁ ++ c₂) =
      readHeader rules header h c₁ >>= fun r ↦ push rules r c₂ := by
  -- what follows a header is shorter than the chunk
  induction hk : c₁.length using Nat.strong_induction_on generalizing header c₁ c₂ with
  | _ k ih =>
  subst hk
  by_cases hfill : FRAME_HEADER_BYTES ≤ header.length + c₁.length
  · have hle : FRAME_HEADER_BYTES - header.length ≤ c₁.length := by omega
    rw [readHeader_of_le h hfill, readHeader_of_le h (by rw [List.length_append]; omega),
      List.take_append_of_le_length hle, List.drop_append_of_le_length hle]
    simp only [afterHeader, bind_assoc]
    refine bind_congr fun limit ↦ ?_
    cases limit with
    | none => simp [push]
    | some limit =>
      by_cases hlimit : limit < Der.ofBytes
          ((header ++ c₁.take (FRAME_HEADER_BYTES - header.length)).drop 1)
      · simp only [hlimit, if_true, bind_assoc, pure_bind, push]
      · simp only [hlimit, if_false]
        refine readPayload_append (fun rest c₃ hrest ↦ ?_) _ _ _ _
        rw [List.length_drop] at hrest
        exact ih rest.length (by omega) (by decide) rest c₃ rfl
  · have hlt : (header ++ c₁).length < FRAME_HEADER_BYTES := by
      rw [List.length_append]
      omega
    rw [readHeader_of_lt h hlt, pure_bind, push]
    by_cases hfill' : FRAME_HEADER_BYTES ≤ header.length + (c₁ ++ c₂).length
    · have hge : c₁.length ≤ FRAME_HEADER_BYTES - header.length := by omega
      have hsub : FRAME_HEADER_BYTES - header.length - c₁.length =
          FRAME_HEADER_BYTES - (header ++ c₁).length := by
        rw [List.length_append]
        omega
      rw [readHeader_of_le h hfill', readHeader_of_le hlt (by simpa [Nat.add_assoc] using hfill'),
        List.take_append, List.take_of_length_le hge, List.drop_append,
        List.drop_eq_nil_of_le hge, List.nil_append, ← List.append_assoc, hsub]
    · have hlt' : (header ++ (c₁ ++ c₂)).length < FRAME_HEADER_BYTES := by
        rw [List.length_append]
        omega
      rw [readHeader_of_lt h hlt', readHeader_of_lt hlt (by rwa [List.append_assoc])]
      simp only [List.append_assoc]

/-- Two chunks are taken as both at once. -/
theorem push_append (r : Reader) (c₁ c₂ : List UInt8) :
    push rules r (c₁ ++ c₂) = push rules r c₁ >>= fun r ↦ push rules r c₂ := by
  cases r with
  | header bytes h => exact readHeader_append h c₁ c₂
  | payload type length bytes h =>
    exact readPayload_append (fun rest c₃ _ ↦ readHeader_append _ rest c₃) type length bytes c₂
  | stopped => simp [push]

omit [LawfulMonad m] in
@[simp] theorem push_nil (r : Reader) : push rules r [] = pure r := by
  cases r with
  | header bytes h => exact readHeader_nil h
  | payload type length bytes h =>
    rw [push, readPayload_of_lt (by rwa [List.append_nil])]
    simp only [List.append_nil]
  | stopped => rfl

/-- However a stream is cut into chunks, the reader makes the same calls. -/
theorem foldlM_push_eq (r : Reader) (chunks : List (List UInt8)) :
    chunks.foldlM (push rules) r = push rules r chunks.flatten := by
  induction chunks generalizing r with
  | nil => simp
  | cons c chunks ih =>
    rw [List.foldlM_cons, List.flatten_cons, push_append]
    exact bind_congr fun r' ↦ ih r'

end Push

/-! ### A whole frame -/

section Frame

variable {m : Type → Type} [Monad m] {rules : FrameRules m}

/-- A frame that was written is given to the rules, unless they refuse it from its header. -/
theorem push_encodeFrame {type : ℕ} (htype : type < 256) {parts buffers : List (List UInt8)}
    (h : encodeFrame type parts = some buffers) (rest : List UInt8) :
    push rules .start (buffers.flatten ++ rest) = (do
      match ← rules.limit type with
      | none => do
        rules.refuse type parts.flatten.length false
        pure .stopped
      | some limit =>
        if limit < parts.flatten.length then do
          rules.refuse type parts.flatten.length true
          pure .stopped
        else do
          if ← rules.frame type parts.flatten then push rules .start rest else pure .stopped) := by
  simp only [encodeFrame, Option.ite_none_left_eq_some, Option.some.injEq, not_lt] at h
  obtain ⟨hmax, rfl⟩ := h
  have hlength : (parts.map List.length).sum = parts.flatten.length := List.length_flatten.symm
  have hparts : (parts.filter fun part ↦ 0 < part.length).flatten = parts.flatten := by
    clear hmax hlength
    induction parts with
    | nil => rfl
    | cons part parts ih => cases part <;> simp_all
  rw [hlength] at hmax ⊢
  have hheader : (Bytes.be 1 type ++ Bytes.be 4 parts.flatten.length).length =
      FRAME_HEADER_BYTES := by simp [FRAME_HEADER_BYTES]
  have htaken := hheader
  rw [List.flatten_cons, hparts, Reader.start, push, readHeader_of_le (by decide) (by
    simp only [List.length_append, List.length_nil] at hheader ⊢
    omega)]
  simp only [List.nil_append, List.length_nil, Nat.sub_zero, List.append_assoc]
  rw [← List.append_assoc (Bytes.be 1 type), ← hheader, List.take_left, List.drop_left]
  have htypeRead : Der.ofBytes ((Bytes.be 1 type ++ Bytes.be 4 parts.flatten.length).take 1) =
      type := by
    rw [List.take_left' (Bytes.length_be 1 type), Bytes.ofBytes_be (by simpa using htype)]
  have hlengthRead : Der.ofBytes ((Bytes.be 1 type ++ Bytes.be 4 parts.flatten.length).drop 1) =
      parts.flatten.length := by
    rw [List.drop_left' (Bytes.length_be 1 type), Bytes.ofBytes_be]
    rw [MAX_FRAME_PAYLOAD_BYTES] at hmax
    omega
  simp only [afterHeader, htypeRead, hlengthRead]
  congr 1
  funext limit
  cases limit with
  | none => rfl
  | some limit =>
    by_cases hlimit : limit < parts.flatten.length
    · simp only [hlimit, if_true]
    · simp only [hlimit, if_false]
      rw [readPayload_of_le (by rw [List.length_append]; omega)]
      simp [push]

end Frame

/-! ### A reader whose rules keep a state -/

section Preserved

variable {σ : Type} {rules : FrameRules (StateM σ)} {P : σ → Prop}

theorem readPayload_preserves {chunk : List UInt8}
    (hframe : ∀ type payload s, P s → P ((rules.frame type payload).run s).2)
    (hrest : ∀ rest s, rest.length ≤ chunk.length → P s →
      P ((readHeader rules [] (by decide) rest).run s).2)
    (type length : ℕ) (payload : List UInt8) {s : σ} (hs : P s) :
    P ((readPayload rules type length payload chunk).run s).2 := by
  by_cases hfill : length ≤ payload.length + chunk.length
  · rw [readPayload_of_le hfill, StateT.run_bind]
    have hnext := hframe type (payload ++ chunk.take (length - payload.length)) s hs
    rcases hrun : (rules.frame type (payload ++ chunk.take (length - payload.length))).run s with
      ⟨more, s'⟩
    rw [hrun] at hnext
    cases more with
    | false => exact hnext
    | true => exact hrest _ s' (by rw [List.length_drop]; omega) hnext
  · rw [readPayload_of_lt (by rw [List.length_append]; omega)]
    exact hs

variable (hlimit : ∀ type s, P s → P ((rules.limit type).run s).2)
  (hframe : ∀ type payload s, P s → P ((rules.frame type payload).run s).2)
  (hrefuse : ∀ type length oversized s, P s → P ((rules.refuse type length oversized).run s).2)

include hlimit hframe hrefuse

theorem readHeader_preserves {header : List UInt8} (h : header.length < FRAME_HEADER_BYTES)
    {chunk : List UInt8} {s : σ} (hs : P s) : P ((readHeader rules header h chunk).run s).2 := by
  induction hk : chunk.length using Nat.strong_induction_on generalizing header chunk s with
  | _ k ih =>
  subst hk
  by_cases hfill : FRAME_HEADER_BYTES ≤ header.length + chunk.length
  · rw [readHeader_of_le h hfill]
    simp only [afterHeader]
    rw [StateT.run_bind]
    generalize Der.ofBytes (List.take 1 _) = type
    generalize Der.ofBytes (List.drop 1 _) = length
    have hnext := hlimit type s hs
    rcases hrun : (rules.limit type).run s with ⟨limit, s'⟩
    rw [hrun] at hnext
    cases limit with
    | none => exact hrefuse type length false s' hnext
    | some limit =>
      change P (StateT.run (if limit < length then (do
        rules.refuse type length true
        pure .stopped) else readPayload rules type length [] _ : StateM σ Reader) s').2
      split_ifs with hlimit'
      · exact hrefuse type length true s' hnext
      · refine readPayload_preserves hframe (fun rest s₂ hrest hs₂ ↦ ?_) type length [] hnext
        rw [List.length_drop] at hrest
        exact ih rest.length (by omega) (by decide) hs₂ rfl
  · rw [readHeader_of_lt h (by rw [List.length_append]; omega)]
    exact hs

/-- What the rules keep, a chunk keeps. -/
theorem push_preserves (r : Reader) (chunk : List UInt8) {s : σ} (hs : P s) :
    P ((push rules r chunk).run s).2 := by
  cases r with
  | header bytes h => exact readHeader_preserves hlimit hframe hrefuse h hs
  | payload type length bytes h =>
    exact readPayload_preserves hframe
      (fun rest s' _ hs' ↦ readHeader_preserves hlimit hframe hrefuse _ hs') type length bytes hs
  | stopped => exact hs

end Preserved

/-! ### The calls -/

/-- A call of the reader to its rules. -/
inductive ReaderCall
  | limit (type : ℕ)
  | frame (type : ℕ) (payload : List UInt8)
  | refuse (type length : ℕ) (oversized : Bool)

/-- How rules answer, by the calls that were made, the last first. -/
structure Answers where
  limit : List ReaderCall → ℕ → Option ℕ
  frame : List ReaderCall → ℕ → List UInt8 → Bool

def Answers.rules (A : Answers) : FrameRules (StateM (List ReaderCall)) where
  limit type := fun calls ↦ (A.limit calls type, .limit type :: calls)
  frame type payload := fun calls ↦ (A.frame calls type payload, .frame type payload :: calls)
  refuse type length oversized := fun calls ↦ ((), .refuse type length oversized :: calls)

section Answers

variable (A : Answers) {β : Type} (calls : List ReaderCall)

theorem Answers.run_limit (type : ℕ) (k : Option ℕ → StateM (List ReaderCall) β) :
    (A.rules.limit type >>= k).run calls = (k (A.limit calls type)).run (.limit type :: calls) :=
  rfl

theorem Answers.run_frame (type : ℕ) (payload : List UInt8) (k : Bool → StateM (List ReaderCall) β) :
    (A.rules.frame type payload >>= k).run calls =
      (k (A.frame calls type payload)).run (.frame type payload :: calls) :=
  rfl

end Answers

/-- The bytes that the reader keeps. -/
def Reader.kept : Reader → List UInt8
  | .header bytes _ => bytes
  | .payload _ _ bytes _ => bytes
  | .stopped => []

/-- No frame was refused. -/
def NoneRefused (calls : List ReaderCall) : Prop :=
  ∀ type length oversized, .refuse type length oversized ∉ calls

def StoppedOrClean (out : Reader × List ReaderCall) : Prop := out.1 = .stopped ∨ NoneRefused out.2

section Kept

variable (A : Answers)

theorem NoneRefused.limit {calls : List ReaderCall} (h : NoneRefused calls) (type : ℕ) :
    NoneRefused (.limit type :: calls) := by
  intro t l o hin
  exact h t l o (by simpa using hin)

theorem NoneRefused.frame {calls : List ReaderCall} (h : NoneRefused calls) (type : ℕ)
    (payload : List UInt8) : NoneRefused (.frame type payload :: calls) := by
  intro t l o hin
  exact h t l o (by simpa using hin)

theorem readPayload_stoppedOrClean {chunk : List UInt8} {calls : List ReaderCall}
    (hrest : ∀ rest calls, rest.length ≤ chunk.length → NoneRefused calls →
      StoppedOrClean ((readHeader A.rules [] (by decide) rest).run calls))
    (hcalls : NoneRefused calls) (type length : ℕ) (payload : List UInt8) :
    StoppedOrClean ((readPayload A.rules type length payload chunk).run calls) := by
  by_cases hfill : length ≤ payload.length + chunk.length
  · rw [readPayload_of_le hfill]
    have hnext := hrest (chunk.drop (length - payload.length))
      (.frame type (payload ++ chunk.take (length - payload.length)) :: calls)
      (by rw [List.length_drop]; omega) (hcalls.frame type _)
    rw [Answers.run_frame]
    split
    · exact hnext
    · exact .inl rfl
  · rw [readPayload_of_lt (by rw [List.length_append]; omega)]
    exact .inr hcalls

theorem readHeader_stoppedOrClean {header : List UInt8} (h : header.length < FRAME_HEADER_BYTES)
    {chunk : List UInt8} {calls : List ReaderCall} (hcalls : NoneRefused calls) :
    StoppedOrClean ((readHeader A.rules header h chunk).run calls) := by
  induction hk : chunk.length using Nat.strong_induction_on generalizing header chunk calls with
  | _ k ih =>
  subst hk
  by_cases hfill : FRAME_HEADER_BYTES ≤ header.length + chunk.length
  · rw [readHeader_of_le h hfill]
    simp only [afterHeader]
    rw [Answers.run_limit]
    split
    · exact .inl rfl
    · split
      · exact .inl rfl
      · refine readPayload_stoppedOrClean A (fun rest calls' hrest hcalls' ↦ ?_)
          (hcalls.limit _) _ _ _
        rw [List.length_drop] at hrest
        exact ih rest.length (by omega) (by decide) hcalls' rfl
  · rw [readHeader_of_lt h (by rw [List.length_append]; omega)]
    exact .inr hcalls

/-- Once a frame is refused, the reader keeps nothing, whatever it was given. -/
theorem kept_of_refused {stream : List UInt8} {reader : Reader} {calls : List ReaderCall}
    (h : (push A.rules .start stream).run [] = (reader, calls)) {type length : ℕ}
    {oversized : Bool} (hrefused : .refuse type length oversized ∈ calls) : reader.kept = [] := by
  have hclean : StoppedOrClean ((push A.rules .start stream).run []) :=
    readHeader_stoppedOrClean A (by decide) (by intro _ _ _; simp)
  rw [h] at hclean
  rcases hclean with heq | hnone
  · rw [show reader = .stopped from heq]
    rfl
  · exact absurd hrefused (hnone _ _ _)

end Kept

end QAuth.Egress
