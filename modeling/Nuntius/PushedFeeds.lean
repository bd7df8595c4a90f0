import Nuntius.BookChains

/-!
# The OKX and Bybit sessions

Both venues push a snapshot and then deltas. OKX deltas name the number they continue; on a gap
the book is dropped until the next snapshot. Bybit deltas are numbered consecutively; on a gap
the session ends.
-/

namespace Nuntius.Okx
open Collectors JsonTrees LabelledRuns

variable {F : Type} [F64 F]

inductive PrevSeq where
  | snapshotAnchor
  | continuity (prev : UInt64)
  | invalid (reason : String)
  deriving DecidableEq

inductive Action where
  | snapshot
  | update (prev : PrevSeq)
  | other
  deriving DecidableEq

def classifyPrevSeq (v : Option (JsonTree F)) : PrevSeq :=
  match v.bind parseI64 with
  | none => .invalid "update missing prevSeqId; protocol violation"
  | some raw =>
    if raw.val = -1 then .snapshotAnchor
    else if raw.val < 0 then .invalid "invalid negative prevSeqId"
    else .continuity (UInt64.ofNat raw.val.toNat)

def readAction (action : String) (data : JsonTree F) : Action :=
  match action with
  | "snapshot" => .snapshot
  | "update" => .update (classifyPrevSeq (data.get "prevSeqId"))
  | _ => .other

def parseFrame (r : TextReader F) (text : String) : Option (Received F Action) := do
  guard (text ≠ "pong")
  let v ← r.fromStr text
  guard (v.get "event").isNone
  let action ← (v.get "action").bind JsonTree.asStr
  let instId ← ((v.get "arg").bind (·.get "instId")).bind JsonTree.asStr
  let data ← ((v.get "data").bind JsonTree.asArray).bind List.head?
  let seqId ← (data.get "seqId").bind parseU64
  some
    { instrument := instId
      exchTs := parseExchTs (data.get "ts")
      frame :=
        { tag := readAction action data
          seq := seqId
          bids := parseLevels r (data.get "bids")
          asks := parseLevels r (data.get "asks") } }

/-- What the session does with a frame when its book is at the number `seq`. -/
def react (seq : Option UInt64) (m : Received F Action) : Reaction :=
  match m.frame.tag with
  | .snapshot => .anchor
  | .update .snapshotAnchor => .anchor
  | .update (.continuity prev) =>
    match seq with
    | none => .ignore
    | some localSeq =>
      if m.frame.seq ≤ localSeq then .ignore
      else if prev ≠ localSeq then .reset
      else .extend
  | .update (.invalid reason) => .fail ("[okx/" ++ m.instrument ++ "] " ++ reason)
  | .other => .ignore

/-- A session with the venue, from subscribing on. -/
abbrev SessionRun [LinearOrder F] (r : TextReader F) (pairs : List String) :=
  Run (startFeeds (F := F) "okx" pairs) (FeedStep (parseFrame r) react)

/-- An update continues the number it names. -/
def rule : FeedRule F Action where
  isAnchor f := f.tag = .snapshot ∨ f.tag = .update .snapshotAnchor
  continues s f := f.tag = .update (.continuity s)

omit [F64 F] in
theorem react_sound : SoundReaction (rule (F := F)) (fun _ => True) react where
  anchor seq m h := by
    unfold react at h
    split at h
    · rename_i htag
      exact .inl htag
    · rename_i htag
      exact .inr htag
    · split at h
      · cases h
      · split_ifs at h
    · cases h
    · cases h
  extend seq m h := by
    unfold react at h
    split at h
    · cases h
    · cases h
    · rename_i prev htag
      split at h
      · cases h
      · rename_i localSeq
        split_ifs at h with hstale hgap
        obtain rfl := not_not.mp hgap
        exact ⟨prev, rfl, fun _ => htag⟩
    · cases h
    · cases h

end Nuntius.Okx

namespace Nuntius.Bybit
open Collectors JsonTrees LabelledRuns SequenceChains

variable {F : Type} [F64 F]

inductive Kind where
  | snapshot
  | delta
  | other
  deriving DecidableEq

def readKind : String → Kind
  | "snapshot" => .snapshot
  | "delta" => .delta
  | _ => .other

/-- The symbol in a topic `orderbook.{depth}.{SYMBOL}`. -/
def topicSymbol (r : TextReader F) (topic : String) : Option String :=
  ((topic.toList.splitOn '.')[2]?).map fun part => r.toUppercase (String.ofList part)

def parseFrame (r : TextReader F) (text : String) : Option (Received F Kind) := do
  let v ← r.fromStr text
  guard ¬ ((v.get "op").isSome ∧ (v.get "data").isNone)
  let topic ← (v.get "topic").bind JsonTree.asStr
  let symbol ← topicSymbol r topic
  let data ← v.get "data"
  let newU ← (data.get "u").bind parseU64
  some
    { instrument := symbol
      exchTs := parseExchTs (v.get "ts")
      frame :=
        { tag := readKind (((v.get "type").bind JsonTree.asStr).getD "")
          seq := newU
          bids := parseLevels r (data.get "b")
          asks := parseLevels r (data.get "a") } }

/-- What the session does with a frame when its book is at the number `seq`. -/
def react (seq : Option UInt64) (m : Received F Kind) : Reaction :=
  match m.frame.tag with
  | .snapshot => .anchor
  | .delta =>
    match seq with
    | none => .ignore
    | some last => if m.frame.seq ≠ last + 1 then .fail "bybit gap" else .extend
  | .other => .ignore

/-- A session with the venue, from subscribing on. -/
abbrev SessionRun [LinearOrder F] (r : TextReader F) (pairs : List String) :=
  Run (startFeeds (F := F) "bybit" (pairs.map r.toUppercase)) (FeedStep (parseFrame r) react)

/-- Deltas are numbered consecutively. -/
def rule : FeedRule F Kind where
  isAnchor f := f.tag = .snapshot
  continues s f := f.tag = .delta ∧ f.seq.toNat = s.toNat + 1

omit [F64 F] in
theorem react_sound : SoundReaction (rule (F := F)) HasNext react where
  anchor seq m h := by
    unfold react at h
    split at h
    · rename_i htag
      exact htag
    · split at h
      · cases h
      · split_ifs at h
    · cases h
  extend seq m h := by
    unfold react at h
    split at h
    · cases h
    · rename_i htag
      split at h
      · cases h
      · rename_i last
        split_ifs at h with hgap
        refine ⟨last, rfl, fun hlast => ⟨htag, ?_⟩⟩
        rw [not_not.mp hgap]
        exact toNat_succ hlast
    · cases h

end Nuntius.Bybit
