import Nuntius.EgressTunnel
import Nuntius.PushedSessions
import Nuntius.SnapshotSessions

/-!
# The collectors of pushed books

Bitget numbers its updates consecutively; those of Poloniex, WEEX and WhiteBIT name the update
they continue; Coinbase numbers its messages. Kraken, Biconomy and Phemex do not number their
updates, and LBank, BingX, Bitrue, CoinW and Coinstore push whole books only.
-/

namespace Nuntius.PushedSessions
open Collectors CobCommon JsonTrees LabelledRuns SequenceChains
open Binance (TopOfVenue)
open SnapshotSessions (stripStart timeMs)

variable {F : Type} [F64 F]

/-! ### What collectors share -/

/-- Texts of dates: with a zone, and without one. -/
structure DateReader where
  parseFromRfc3339 : String → Option I64
  naive : String → Option I64

def parseRfc3339Ms (dates : DateReader) (v : Option (JsonTree F)) : Option I64 :=
  (v.bind JsonTree.asStr).bind dates.parseFromRfc3339

def readKind : String → Kind
  | "snapshot" => .snapshot
  | "update" => .update
  | _ => .other

/-- Everything in front of the first separator. -/
def firstPart (sep : Char) (text : String) : String :=
  String.ofList (text.toList.takeWhile (· != sep))

section Verdicts
variable [LinearOrder F]

/-- Updates have to name the local number, if they name one. -/
def linkedVerdict (gap : String) (book : LocalBook F) (p : Push F) : Verdict :=
  match p.kind with
  | .snapshot => .replace
  | .update =>
    match book.seq with
    | none => .skip
    | some localSeq => if p.previous.getD localSeq ≠ localSeq then .fail gap else .extend
  | .other => .skip

/-- Updates are for books that are ready. -/
def readyVerdict (book : LocalBook F) (p : Push F) : Verdict :=
  match p.kind with
  | .snapshot => .replace
  | .update => if book.isReady then .extend else .skip
  | .other => .skip

end Verdicts

/-! ### Venues with numbers -/

namespace Bitget
variable (r : TextReader F)

def readPush (text : String) : Option (Push F) := do
  guard (text ≠ "pong")
  let v ← r.fromStr text
  guard (v.get "event").isNone
  let action ← (v.get "action").bind JsonTree.asStr
  let instId ← ((v.get "arg").bind (·.get "instId")).bind JsonTree.asStr
  let data ← ((v.get "data").bind JsonTree.asArray).bind List.head?
  let seq ← (data.get "seq").bind parseU64
  some
    { instrument := instId
      kind := readKind action
      previous := none
      number := some seq
      exchTs := parseExchTs (data.get "ts")
      bids := parseLevels r (data.get "bids")
      asks := parseLevels r (data.get "asks") }

variable [LinearOrder F]

def verdict (book : LocalBook F) (p : Push F) : Verdict :=
  match p.kind with
  | .snapshot => .replace
  | .update =>
    match book.seq, p.number with
    | some localSeq, some seq =>
      if seq ≤ localSeq then .skip
      else if localSeq + 1 < seq then .fail "bitget gap"
      else .extend
    | _, _ => .skip
  | .other => .skip

def venue : Venue String F where
  exchangeId := "bitget"
  key := r.toUppercase
  read text := .single (readPush r text)
  numbering := .stated
  verdict := verdict
  needsReady := false

end Bitget

namespace Poloniex
variable (r : TextReader F)

def readItem (action : String) (d : JsonTree F) : Option (Push F) := do
  let symbol ← (d.get "symbol").bind JsonTree.asStr
  some
    { instrument := symbol
      kind := readKind action
      previous := (d.get "lastId").bind parseU64
      number := (d.get "id").bind parseU64
      exchTs := parseExchTs (d.get "ts")
      bids := parseLevels r (d.get "bids")
      asks := parseLevels r (d.get "asks") }

def readItems (text : String) : Option (List (Push F)) := do
  let v ← r.fromStr text
  guard ¬ ((v.get "event").isSome ∧ (v.get "data").isNone)
  guard ((v.get "channel").bind JsonTree.asStr = some "book_lv2")
  let items ← (v.get "data").bind JsonTree.asArray
  let action := ((v.get "action").bind JsonTree.asStr).getD "snapshot"
  some (items.filterMap (readItem r action))

variable [LinearOrder F]

def venue : Venue String F where
  exchangeId := "poloniex"
  key := id
  read text := .pushes none ((readItems r text).getD [])
  numbering := .stated
  verdict := linkedVerdict "poloniex gap"
  needsReady := true

end Poloniex

namespace Weex
variable (r : TextReader F)

def readKind : String → Kind
  | "SNAPSHOT" => .snapshot
  | "CHANGED" => .update
  | _ => .other

def readPush (text : String) : Option (Push F) := do
  let v ← r.fromStr text
  guard ((v.get "event").bind JsonTree.asStr ≠ some "ping")
  guard (((v.get "e").bind JsonTree.asStr).getD "" ∈ ["depth", "depthSnapshot"])
  let symbol ← (v.get "s").bind JsonTree.asStr
  some
    { instrument := r.toUppercase symbol
      kind := readKind (((v.get "d").bind JsonTree.asStr).getD "")
      previous := (v.get "U").bind parseU64
      number := (v.get "u").bind parseU64
      exchTs := parseExchTs (v.get "E")
      bids := parseLevels r (v.get "b")
      asks := parseLevels r (v.get "a") }

variable [LinearOrder F]

def venue : Venue String F where
  exchangeId := "weex"
  key := r.toUppercase
  read text := .single (readPush r text)
  numbering := .stated
  verdict := linkedVerdict "weex gap"
  needsReady := true

end Weex

namespace Whitebit
variable (r : TextReader F)

def isErrorFrame (v : JsonTree F) : Bool := (v.get "error").any (!·.isNull)

/-- Seconds with a fraction to milliseconds. -/
def tsMsFromSeconds (data : JsonTree F) : I64 :=
  (((data.get "timestamp").bind (parseF64 r)).map fun s =>
    I64.wrap (F64.asI64 (s * F64.lit 1000))).getD (I64.wrap 0)

def readPush (v : JsonTree F) : Option (Push F) := do
  guard ((v.get "method").bind JsonTree.asStr = some "depth_update")
  let params ← (v.get "params").bind JsonTree.asArray
  let isFull ← params[0]?
  let data ← params[1]?
  let symbol ← params[2]?
  some
    { instrument := r.toUppercase (symbol.asStr.getD "")
      kind := if isFull.asBool.getD false then .snapshot else .update
      previous := (data.get "past_update_id").bind parseU64
      number := (data.get "update_id").bind parseU64
      exchTs := tsMsFromSeconds r data
      bids := parseLevels r (data.get "bids")
      asks := parseLevels r (data.get "asks") }

def read (text : String) : Reading F :=
  match r.fromStr text with
  | none => .pushes none []
  | some v =>
    if isErrorFrame v then .rejected "whitebit error frame" else .single (readPush r v)

variable [LinearOrder F]

def verdict (book : LocalBook F) (p : Push F) : Verdict :=
  match p.kind with
  | .snapshot => .replace
  | .update =>
    match book.seq with
    | none => .skip
    | some localSeq =>
      match p.previous with
      | none => .fail "whitebit delta missing past_update_id"
      | some past => if past ≠ localSeq then .fail "whitebit gap" else .extend
  | .other => .skip

def venue : Venue String F where
  exchangeId := "whitebit"
  key := r.toUppercase
  read := read r
  numbering := .stated
  verdict := verdict
  needsReady := false

end Whitebit

namespace Coinbase
variable (r : TextReader F) (dates : DateReader)

def readUpdate (sides : List String) (u : JsonTree F) : Option (F × F) := do
  let p ← (u.get "price_level").bind (parseF64 r)
  let q ← (u.get "new_quantity").bind (parseF64 r)
  guard (((u.get "side").bind JsonTree.asStr).getD "" ∈ sides)
  some (p, q)

def splitSides (updates : List (JsonTree F)) : List (F × F) × List (F × F) :=
  (updates.filterMap (readUpdate r ["bid"]), updates.filterMap (readUpdate r ["offer", "ask"]))

def readEvent (exchTs : I64) (event : JsonTree F) : Option (Push F) := do
  let productId ← (event.get "product_id").bind JsonTree.asStr
  let updates ← (event.get "updates").bind JsonTree.asArray
  some
    { instrument := productId
      kind := readKind (((event.get "type").bind JsonTree.asStr).getD "")
      previous := none
      number := none
      exchTs := exchTs
      bids := (splitSides r updates).1
      asks := (splitSides r updates).2 }

def readEvents (v : JsonTree F) : Option (List (Push F)) := do
  guard ((v.get "channel").bind JsonTree.asStr = some "l2_data")
  let exchTs := (parseRfc3339Ms dates (v.get "timestamp")).getD (I64.wrap 0)
  let events ← (v.get "events").bind JsonTree.asArray
  some (events.filterMap (readEvent r exchTs))

def read (text : String) : Reading F :=
  match r.fromStr text with
  | none => .pushes none []
  | some v => .pushes ((v.get "sequence_num").bind parseU64) ((readEvents r dates v).getD [])

variable [LinearOrder F]

def venue : Venue String F where
  exchangeId := "coinbase"
  key := id
  read := read r dates
  numbering := .outer
  verdict := readyVerdict
  needsReady := false

end Coinbase

/-! ### Venues without numbers -/

namespace Kraken
variable (r : TextReader F) (dates : DateReader)

def readLevel (item : JsonTree F) : Option (F × F) := do
  let p ← (item.get "price").bind (parseF64 r)
  let q ← (item.get "qty").bind (parseF64 r)
  some (p, q)

def parseDictLevels (v : Option (JsonTree F)) : List (F × F) :=
  match v.bind JsonTree.asArray with
  | none => []
  | some items => items.filterMap (readLevel r)

def readPush (text : String) : Option (Push F) := do
  let v ← r.fromStr text
  guard ((v.get "channel").bind JsonTree.asStr = some "book")
  let data ← ((v.get "data").bind JsonTree.asArray).bind List.head?
  let symbol ← (data.get "symbol").bind JsonTree.asStr
  some
    { instrument := symbol
      kind := readKind (((v.get "type").bind JsonTree.asStr).getD "")
      previous := none
      number := none
      exchTs := (parseRfc3339Ms dates (data.get "timestamp")).getD (I64.wrap 0)
      bids := parseDictLevels r (data.get "bids")
      asks := parseDictLevels r (data.get "asks") }

variable [LinearOrder F]

def venue : Venue String F where
  exchangeId := "kraken"
  key := id
  read text := .single (readPush r dates text)
  numbering := .counted
  verdict := readyVerdict
  needsReady := false

end Kraken

namespace Biconomy
variable (r : TextReader F)

def readPush (text : String) : Option (Push F) := do
  let v ← r.fromStr text
  guard ((v.get "method").bind JsonTree.asStr = some "depth.update")
  let params ← (v.get "params").bind JsonTree.asArray
  let isFull ← params[0]?
  let data ← params[1]?
  let symbol ← params[2]?
  some
    { instrument := symbol.asStr.getD ""
      kind := if isFull.asBool.getD false then .snapshot else .update
      previous := none
      number := none
      exchTs := timeMs ((data.get "time").or (data.get "ts"))
      bids := parseLevels r (data.get "bids")
      asks := parseLevels r (data.get "asks") }

variable [LinearOrder F]

def venue : Venue String F where
  exchangeId := "biconomy"
  key := id
  read text := .single (readPush r text)
  numbering := .counted
  verdict := readyVerdict
  needsReady := true

end Biconomy

namespace Phemex
variable (r : TextReader F)

def scale : F := F64.lit 100000000

def readScaled (row : JsonTree F) : Option (F × F) := do
  let cells ← row.asArray
  let p ← (← cells[0]?).asF64
  let q ← (← cells[1]?).asF64
  some (p / scale, q / scale)

def parseScaled (v : Option (JsonTree F)) : List (F × F) :=
  match v.bind JsonTree.asArray with
  | none => []
  | some rows => rows.filterMap readScaled

/-- Nanoseconds to milliseconds. -/
def exchTsMs (v : Option (JsonTree F)) : I64 :=
  ((v.bind parseI64).map fun ns => I64.wrap (ns.val.tdiv 1000000)).getD (I64.wrap 0)

def readPush (text : String) : Option (Push F) := do
  let v ← r.fromStr text
  let data ← v.get "book"
  let symbol ← (v.get "symbol").bind JsonTree.asStr
  some
    { instrument := symbol
      kind := if ((v.get "type").bind JsonTree.asStr).getD "snapshot" ≠ "incremental" then
        .snapshot else .update
      previous := none
      number := none
      exchTs := exchTsMs (v.get "timestamp")
      bids := parseScaled (data.get "bids")
      asks := parseScaled (data.get "asks") }

variable [LinearOrder F]

def venue : Venue String F where
  exchangeId := "phemex"
  key := id
  read text := .single (readPush r text)
  numbering := .counted
  verdict := readyVerdict
  needsReady := true

end Phemex

/-! ### Venues that push whole books only -/

namespace Lbank
variable (r : TextReader F) (dates : DateReader)

/-- Beijing is eight hours ahead. -/
def lbankTzOffsetMs : I64 := I64.wrap (8 * 3600 * 1000)

def parseLbankTsMs (v : Option (JsonTree F)) : Option I64 :=
  (v.bind JsonTree.asStr).bind dates.naive

def lbankExchTsMs (v : JsonTree F) : I64 :=
  (((v.get "ds").bind parseI64).or
    ((parseLbankTsMs dates (v.get "TS")).map (·.sub lbankTzOffsetMs))).getD (I64.wrap 0)

def readPush (text : String) : Option (Push F) := do
  let v ← r.fromStr text
  guard ((v.get "action").bind JsonTree.asStr ≠ some "ping")
  let d ← v.get "depth"
  let pair ← (v.get "pair").bind JsonTree.asStr
  some
    { instrument := r.toLowercase pair
      kind := .snapshot
      previous := none
      number := none
      exchTs := lbankExchTsMs dates v
      bids := parseLevels r (d.get "bids")
      asks := parseLevels r (d.get "asks") }

variable [LinearOrder F]

def venue : Venue String F where
  exchangeId := "lbank"
  key := r.toLowercase
  read text := .single (readPush r dates text)
  numbering := .counted
  verdict := readyVerdict
  needsReady := false

end Lbank

/-- Frames of a venue that compresses them. -/
inductive Frame where
  | text (text : String)
  | binary (bin : List UInt8)

/-- The first bytes of a compressed stream, if it does not break before. -/
abbrev GzDecoder := List UInt8 → ℕ → Option (List UInt8)

def maxDecompressedBytes : ℕ := 4 * 1024 * 1024

/-- One byte more than allowed is asked for, so that a stream that is too long is seen. -/
def decompress (gz : GzDecoder) (bin : List UInt8) : Option String := do
  let buf ← gz bin (maxDecompressedBytes + 1)
  guard (buf.length ≤ maxDecompressedBytes)
  EgressTunnel.fromUtf8 buf

namespace Bingx
variable (r : TextReader F) (gz : GzDecoder)

def parseDepth (text : String) : Option (Push F) := do
  let v ← r.fromStr text
  let dt ← (v.get "dataType").bind JsonTree.asStr
  let data ← v.get "data"
  some
    { instrument := r.toUppercase (firstPart '@' dt)
      kind := .snapshot
      previous := none
      number := none
      exchTs := ((v.get "ts").bind JsonTree.asI64).getD (I64.wrap 0)
      bids := parseLevels r (data.get "bids")
      asks := parseLevels r (data.get "asks") }

def read : Frame → Reading F
  | .binary bin => .single ((decompress gz bin).bind (parseDepth r))
  | .text _ => .pushes none []

variable [LinearOrder F]

def venue : Venue Frame F where
  exchangeId := "bingx"
  key := r.toUppercase
  read := read r gz
  numbering := .counted
  verdict := readyVerdict
  needsReady := false

end Bingx

namespace Bitrue
variable (r : TextReader F) (gz : GzDecoder)

def stripEnd (tail text : String) : Option String :=
  if tail.toList.isSuffixOf text.toList then
    some (String.ofList (text.toList.take (text.length - tail.length)))
  else none

def symbolFromChannel (channel : String) : Option String :=
  (stripStart "market_" channel).bind (stripEnd "_simple_depth_step0")

def readPush (v : JsonTree F) : Option (Push F) := do
  let channel ← (v.get "channel").bind JsonTree.asStr
  let symbol ← symbolFromChannel channel
  let t ← v.get "tick"
  some
    { instrument := symbol
      kind := .snapshot
      previous := none
      number := none
      exchTs := timeMs (v.get "ts")
      bids := parseLevels r (t.get "buys")
      asks := parseLevels r (t.get "asks") }

def readText (text : String) : Reading F :=
  match r.fromStr text with
  | none => .pushes none []
  | some v =>
    if (v.get "ping").isSome then .pushes none []
    else if (v.get "event_rep").isSome then
      if ((v.get "status").bind JsonTree.asStr).getD "" ≠ "ok" then
        .rejected "bitrue subscription rejected"
      else .pushes none []
    else .single (readPush r v)

def read : Frame → Reading F
  | .text text => readText r text
  | .binary bin =>
    match decompress gz bin with
    | some text => readText r text
    | none => .pushes none []

variable [LinearOrder F]

def venue : Venue Frame F where
  exchangeId := "bitrue"
  key := r.toLowercase
  read := read r gz
  numbering := .counted
  verdict := readyVerdict
  needsReady := false

end Bitrue

namespace Coinw
variable (r : TextReader F) (codeToSym : String → Option String)

def readData (symbol : String) (data : JsonTree F) : Push F where
  instrument := symbol
  kind := .snapshot
  previous := none
  number := (data.get "seq").bind parseU64
  exchTs := timeMs (data.get "time")
  bids := parseLevels r (data.get "bids")
  asks := parseLevels r (data.get "asks")

/-- Acknowledgements carry their data as an object, pushes as a text. -/
def readFor (symbol : String) : Option (JsonTree F) → Reading F
  | some (.str s) => .single ((r.fromStr s).map (readData r symbol))
  | some (.obj fields) =>
    if ((JsonTree.obj fields).get "result").bind JsonTree.asBool = some false then
      .rejected ("coinw subscription rejected for " ++ symbol)
    else .pushes none []
  | _ => .pushes none []

def subscribed (v : JsonTree F) : Option String := do
  guard ((v.get "type").bind JsonTree.asStr = some "depth_snapshot")
  let code ← (v.get "pairCode").bind JsonTree.asStr
  codeToSym code

def read (text : String) : Reading F :=
  match r.fromStr text with
  | none => .pushes none []
  | some v =>
    match subscribed codeToSym v with
    | none => .pushes none []
    | some symbol => readFor r symbol (v.get "data")

variable [LinearOrder F]

/-- The pairs of the session are the symbols that `codeToSym` knows. -/
def venue : Venue String F where
  exchangeId := "coinw"
  key := id
  read := read r codeToSym
  numbering := .stated
  verdict := readyVerdict
  needsReady := false

end Coinw

namespace Coinstore
variable (r : TextReader F) (idToSym : I64 → Option String)

/-- Coinstore's depth messages are taken without a time. -/
def readPush (text : String) : Option (Push F) := do
  let v ← r.fromStr text
  guard ((v.get "T").bind JsonTree.asStr = some "depth")
  let channel ← (v.get "channel").bind JsonTree.asStr
  let i ← readI64 (firstPart '@' channel)
  let symbol ← idToSym i
  some
    { instrument := symbol
      kind := .snapshot
      previous := none
      number := none
      exchTs := I64.wrap 0
      bids := parseLevels r (v.get "b")
      asks := parseLevels r (v.get "a") }

variable [LinearOrder F]

/-- The pairs of the session are the symbols that `idToSym` knows. -/
def venue : Venue String F where
  exchangeId := "coinstore"
  key := id
  read text := .single (readPush r idToSym text)
  numbering := .counted
  verdict := readyVerdict
  needsReady := false

end Coinstore

/-! ### Following the venues -/

/-- Updates are numbered consecutively. -/
def consecutive (p : Push F) (m n : ℕ) : Prop := n = m + 1 ∧ ∃ k, p.number = some k ∧ k.toNat = n

/-- Updates name the update they continue and their own number. -/
def linked (p : Push F) (m n : ℕ) : Prop :=
  (∃ j, p.previous = some j ∧ j.toNat = m) ∧ ∃ k, p.number = some k ∧ k.toNat = n

section Sound
variable [LinearOrder F]

theorem bitget_sound (r : TextReader F) : SoundVerdict (Bitget.venue r) consecutive where
  stated := rfl
  replace book p h := by
    change Bitget.verdict book p = .replace at h
    unfold Bitget.verdict at h
    split at h
    · assumption
    · split at h
      · split_ifs at h
      · cases h
    · cases h
  extend book p h := by
    change Bitget.verdict book p = .extend at h
    unfold Bitget.verdict at h
    split at h
    · cases h
    · rename_i hkind
      split at h
      · rename_i localSeq seq hseq hnumber
        split_ifs at h with hstale hgap
        refine ⟨hkind, ?_⟩
        rintro m n ⟨rfl, k, hk, hkn⟩
        obtain rfl := Option.some.inj (hnumber.symm.trans hk)
        refine ⟨localSeq, seq, hseq, ?_, hnumber, hkn⟩
        -- behind the test for stale updates the next number does not wrap
        rw [UInt64.le_iff_toNat_le] at hstale
        have hbound := seq.toNat_lt
        have hnext : HasNext localSeq := by
          unfold HasNext
          omega
        rw [UInt64.lt_iff_toNat_lt, toNat_succ hnext] at hgap
        omega
      · cases h
    · cases h

omit [F64 F] in
theorem linkedVerdict_replace {gap : String} {book : LocalBook F} {p : Push F}
    (h : linkedVerdict gap book p = .replace) : p.kind = .snapshot := by
  unfold linkedVerdict at h
  split at h
  · assumption
  · split at h
    · cases h
    · split_ifs at h
  · cases h

omit [F64 F] in
theorem linkedVerdict_extend {gap : String} {book : LocalBook F} {p : Push F}
    (h : linkedVerdict gap book p = .extend) :
    p.kind = .update ∧
      ∃ localSeq, book.seq = some localSeq ∧ p.previous.getD localSeq = localSeq := by
  unfold linkedVerdict at h
  split at h
  · cases h
  · rename_i hkind
    split at h
    · cases h
    · rename_i localSeq hseq
      split_ifs at h with hgap
      exact ⟨hkind, localSeq, hseq, not_not.mp hgap⟩
  · cases h

omit [F64 F] in
theorem linked_sound {V : Venue String F} {gap : String} (hstated : V.numbering = .stated)
    (hV : V.verdict = linkedVerdict gap) : SoundVerdict V linked where
  stated := hstated
  replace book p h := by
    rw [hV] at h
    exact linkedVerdict_replace h
  extend book p h := by
    rw [hV] at h
    obtain ⟨hkind, localSeq, hseq, hprevious⟩ := linkedVerdict_extend h
    refine ⟨hkind, ?_⟩
    rintro m n ⟨⟨j, hj, rfl⟩, k, hk, rfl⟩
    rw [hj, Option.getD_some] at hprevious
    exact ⟨localSeq, k, hseq, by rw [hprevious], hk, rfl⟩

theorem whitebit_sound (r : TextReader F) : SoundVerdict (Whitebit.venue r) linked where
  stated := rfl
  replace book p h := by
    change Whitebit.verdict book p = .replace at h
    unfold Whitebit.verdict at h
    split at h
    · assumption
    · split at h
      · cases h
      · split at h
        · cases h
        · split_ifs at h
    · cases h
  extend book p h := by
    change Whitebit.verdict book p = .extend at h
    unfold Whitebit.verdict at h
    split at h
    · cases h
    · rename_i hkind
      split at h
      · cases h
      · rename_i localSeq hseq
        split at h
        · cases h
        · rename_i past hpast
          split_ifs at h with hgap
          refine ⟨hkind, ?_⟩
          rintro m n ⟨⟨j, hj, rfl⟩, k, hk, rfl⟩
          obtain rfl := Option.some.inj (hpast.symm.trans hj)
          exact ⟨localSeq, k, hseq, by rw [not_not.mp hgap], hk, rfl⟩
    · cases h

omit [F64 F] in
theorem readyVerdict_ready {ι : Type} {V : Venue ι F} (hV : V.verdict = readyVerdict) :
    ReadyVerdict V where
  replace book p h := by
    rw [hV] at h
    unfold readyVerdict at h
    split at h
    · assumption
    · split_ifs at h
    · cases h
  extend book p h := by
    rw [hV] at h
    unfold readyVerdict at h
    split at h
    · cases h
    · rename_i hkind
      split_ifs at h with hready
      exact ⟨hkind, hready⟩
    · cases h
  skip book p h := by
    rw [hV] at h
    unfold readyVerdict at h
    split at h
    · cases h
    · split_ifs at h with hready
      exact .inr (Bool.eq_false_iff.mpr hready)
    · rename_i hkind
      exact .inl hkind

end Sound

section Numbered
variable [LinearOrder F]

/-- Over whole sessions with Bitget, Poloniex, WEEX, WhiteBIT and Coinbase, whatever messages are
lost, repeated or swapped: if the messages about a pair carry their numbers and are true, every
book emitted for the pair is the top of the venue's book after an update the message states, and
the local book is the venue's after its number (with Coinbase, after the last message). -/
theorem numbered_sessions_track_venue (r : TextReader F) (dates : DateReader) :
    FollowsNumbers (Bitget.venue r) consecutive ∧ FollowsNumbers (Poloniex.venue r) linked ∧
      FollowsNumbers (Weex.venue r) linked ∧ FollowsNumbers (Whitebit.venue r) linked ∧
      FollowsMessages (Coinbase.venue r dates) :=
  ⟨followsNumbers_of_sound (bitget_sound r), followsNumbers_of_sound (linked_sound rfl rfl),
    followsNumbers_of_sound (linked_sound rfl rfl), followsNumbers_of_sound (whitebit_sound r),
    followsMessages_of_ready (readyVerdict_ready rfl) rfl⟩

end Numbered

section Example

/-- A snapshot without a time, and then an update. -/
def demoReader : TextReader ExtRat where
  fromStr text :=
    if text = "snapshot" then
      some (.obj [("action", .str "snapshot"), ("arg", .obj [("instId", .str "BTCUSDT")]),
        ("data", .arr [.obj [("seq", .posInt 1), ("bids", .arr [.arr [.posInt 99, .posInt 1]]),
          ("asks", .arr [.arr [.posInt 101, .posInt 1]])]])])
    else
      some (.obj [("action", .str "update"), ("arg", .obj [("instId", .str "BTCUSDT")]),
        ("data", .arr [.obj [("seq", .posInt 2), ("ts", .posInt 1672515782136),
          ("bids", .arr [.arr [.posInt 99, .posInt 2]]), ("asks", .arr [])]])])
  parseFloat _ := none
  toUppercase := id
  toLowercase := id

def demoSnapshot : Push ExtRat :=
  ⟨"BTCUSDT", .snapshot, none, some 1, I64.wrap 0, [(.fin 99, .fin 1)], [(.fin 101, .fin 1)]⟩

def demoUpdate : Push ExtRat :=
  ⟨"BTCUSDT", .update, none, some 2, I64.ofU64 1672515782136, [(.fin 99, .fin 2)], []⟩

theorem read_demo : (Bitget.venue demoReader).read "snapshot" = .pushes none [demoSnapshot] ∧
    (Bitget.venue demoReader).read "update" = .pushes none [demoUpdate] := ⟨rfl, rfl⟩

theorem demoSnapshot_isBook : IsBook Binance.demoLog 1 demoSnapshot :=
  fun side p q => SnapshotSessions.demoSnapshot_true side p q

theorem demoUpdate_brings : Brings Binance.demoLog 1 2 demoUpdate :=
  have htrue := Binance.demoEvent_true (.inl rfl)
  ⟨by decide, htrue.rows_true, htrue.covers⟩

def demoBook : LocalBook ExtRat :=
  (LocalBook.new "bitget" "BTCUSDT").applySnapshot demoSnapshot.bids demoSnapshot.asks (some 1)

/-- The session after the snapshot. -/
def demoSession : Session ExtRat where
  books := (start (Bitget.venue demoReader) ["BTCUSDT"]).books.set "BTCUSDT" demoBook
  counter := none

/-- What update 2 leaves. -/
def demoStored : Session ExtRat × Option (OrderBookData ExtRat) :=
  store (Bitget.venue demoReader) (I64.wrap 1672515782200) demoSession demoUpdate
    (demoBook.applyDeltas demoUpdate.bids demoUpdate.asks (some 2))

def demoMessage (text : String) : Input String := .message text (I64.wrap 1672515782200)

theorem demo_step : ∃ out, step (Bitget.venue demoReader) demoSession (demoMessage "update") =
    ([out], .ok demoStored.1) := by
  obtain ⟨out, hout⟩ := Option.isSome_iff_exists.mp (by decide +kernel :
    demoStored.2.isSome = true)
  have hstep : step (Bitget.venue demoReader) demoSession (demoMessage "update") =
      (demoStored.2.toList ++ [], .ok demoStored.1) := rfl
  exact ⟨out, by rw [hstep, hout]; rfl⟩

theorem demo_again : step (Bitget.venue demoReader) demoStored.1 (demoMessage "update") =
    ([], .ok demoStored.1) := rfl

theorem demo_true (text : String) (h : text = "snapshot" ∨ text = "update") :
    TrueInput (Bitget.venue demoReader) consecutive Binance.demoLog "BTCUSDT"
      (demoMessage text) := by
  rintro outer list hread p hp -
  obtain rfl | rfl := h
  · obtain ⟨-, rfl⟩ := Reading.pushes.inj (read_demo.1.symm.trans hread)
    obtain rfl := List.mem_singleton.mp hp
    exact ⟨1, by simp [States, demoSnapshot], demoSnapshot_isBook⟩
  · obtain ⟨-, rfl⟩ := Reading.pushes.inj (read_demo.2.symm.trans hread)
    obtain rfl := List.mem_singleton.mp hp
    exact ⟨1, 2, ⟨rfl, 2, rfl, rfl⟩, demoUpdate_brings⟩

/-- A snapshot of the book after update 1, then update 2, and update 2 once more. -/
theorem numbered_sessions_track_venue_demo :
    ∃ out s, Always (.ok (start (Bitget.venue demoReader) ["BTCUSDT"]))
        (Step (Bitget.venue demoReader))
        (fun _ l _ => TrueInput (Bitget.venue demoReader) consecutive Binance.demoLog "BTCUSDT" l.1)
        [(demoMessage "update", []), (demoMessage "update", [out]), (demoMessage "snapshot", [])]
        (.ok s) ∧
      LabelOk (Bitget.venue demoReader) Binance.demoLog "BTCUSDT" (demoMessage "update", [out]) ∧
      ∀ book, s.books "BTCUSDT" = some book → Binance.Tracks Binance.demoLog book := by
  obtain ⟨out, hupdate⟩ := demo_step
  have run : Always (.ok (start (Bitget.venue demoReader) ["BTCUSDT"]))
      (Step (Bitget.venue demoReader))
      (fun _ l _ => TrueInput (Bitget.venue demoReader) consecutive Binance.demoLog "BTCUSDT" l.1)
      [(demoMessage "update", []), (demoMessage "update", [out]), (demoMessage "snapshot", [])]
      (.ok demoStored.1) := by
    refine .step (.step (s := .ok demoSession)
      (.step .start ⟨⟨_, rfl, rfl⟩, demo_true "snapshot" (.inl rfl)⟩) ⟨⟨_, rfl, hupdate⟩, ?_⟩)
      ⟨⟨_, rfl, demo_again⟩, ?_⟩
    all_goals exact demo_true "update" (.inr rfl)
  have hfollows := (numbered_sessions_track_venue demoReader ⟨fun _ => none, fun _ => none⟩).1
  obtain ⟨hlabels, htracks⟩ := hfollows Binance.demoLog "BTCUSDT" ["BTCUSDT"] _ _ run
  exact ⟨out, _, run, hlabels _ (by simp), fun book => htracks _ book rfl⟩

end Example

section Streams
variable [LinearOrder F]

/-- With Kraken, Biconomy, Phemex and the venues that push whole books, as long as every message
arrives and in the order of the venue: every book emitted for a pair is the top of the venue's
book at that message, and a book that is ready is the venue's. -/
theorem unnumbered_sessions_follow_stream (r : TextReader F) (dates : DateReader) (gz : GzDecoder)
    (codeToSym : String → Option String) (idToSym : I64 → Option String) :
    FollowsInOrder (Kraken.venue r dates) ∧ FollowsInOrder (Biconomy.venue r) ∧
      FollowsInOrder (Phemex.venue r) ∧ FollowsInOrder (Lbank.venue r dates) ∧
      FollowsInOrder (Bingx.venue r gz) ∧ FollowsInOrder (Bitrue.venue r gz) ∧
      FollowsInOrder (Coinw.venue r codeToSym) ∧ FollowsInOrder (Coinstore.venue r idToSym) :=
  have hready {ι : Type} {V : Venue ι F} (hV : V.verdict = readyVerdict) : FollowsInOrder V :=
    followsInOrder_of_ready (readyVerdict_ready hV)
  ⟨hready rfl, hready rfl, hready rfl, hready rfl, hready rfl, hready rfl, hready rfl, hready rfl⟩

end Streams

section Example

def tickReader : TextReader ExtRat where
  fromStr text :=
    if text = "snapshot" then
      some (.obj [("channel", .str "book"), ("type", .str "snapshot"), ("data", .arr [.obj [
        ("symbol", .str "BTC/USD"),
        ("bids", .arr [.obj [("price", .posInt 99), ("qty", .posInt 1)]]),
        ("asks", .arr [.obj [("price", .posInt 101), ("qty", .posInt 1)]])]])])
    else
      some (.obj [("channel", .str "book"), ("type", .str "update"), ("data", .arr [.obj [
        ("symbol", .str "BTC/USD"), ("timestamp", .str "2022-12-31T19:43:02.136Z"),
        ("bids", .arr [.obj [("price", .posInt 99), ("qty", .posInt 2)]]), ("asks", .arr [])]])])
  parseFloat _ := none
  toUppercase := id
  toLowercase := id

def tickDates : DateReader := ⟨fun _ => some (I64.wrap 1672515782136), fun _ => none⟩

def tickVenue : Venue String ExtRat := Kraken.venue tickReader tickDates

def tickSnapshot : Push ExtRat :=
  ⟨"BTC/USD", .snapshot, none, none, I64.wrap 0, [(.fin 99, .fin 1)], [(.fin 101, .fin 1)]⟩

def tickUpdate : Push ExtRat :=
  ⟨"BTC/USD", .update, none, none, I64.wrap 1672515782136, [(.fin 99, .fin 2)], []⟩

def tickBook : LocalBook ExtRat :=
  (LocalBook.new "kraken" "BTC/USD").applySnapshot tickSnapshot.bids tickSnapshot.asks (some 1)

def tickSession : Session ExtRat where
  books := (start tickVenue ["BTC/USD"]).books.set "BTC/USD" tickBook
  counter := some 1

theorem tick_emits : (store tickVenue (I64.wrap 1672515782200) tickSession tickUpdate
    (tickBook.applyDeltas tickUpdate.bids tickUpdate.asks (some 2))).2.isSome = true := by
  decide +kernel

theorem tick_step : step tickVenue tickSession (.message "update" (I64.wrap 1672515782200)) =
    let stored := store tickVenue (I64.wrap 1672515782200) tickSession tickUpdate
      (tickBook.applyDeltas tickUpdate.bids tickUpdate.asks (some 2))
    (stored.2.toList ++ [], .ok stored.1) := rfl

theorem tickSnapshot_true : TrueStep Binance.demoLog "BTC/USD" 0 [tickSnapshot] where
  snapshot p hp _ _ := by
    obtain rfl := List.mem_singleton.mp hp
    intro side price q
    exact demoSnapshot_isBook side price q
  update p hp _ hkind := by
    obtain rfl := List.mem_singleton.mp hp
    cases hkind
  silent h := by cases h tickSnapshot List.mem_cons_self rfl

theorem tickUpdate_true : TrueStep Binance.demoLog "BTC/USD" 1 [tickUpdate] where
  snapshot p hp _ hkind := by
    obtain rfl := List.mem_singleton.mp hp
    cases hkind
  update p hp _ _ := by
    obtain rfl := List.mem_singleton.mp hp
    exact ⟨by decide, demoUpdate_brings.rows_true, demoUpdate_brings.covers⟩
  silent h := by cases h tickUpdate List.mem_cons_self rfl

/-- A snapshot of the book after update 1, and then update 2. -/
theorem unnumbered_sessions_follow_stream_demo :
    ∃ out s, Run (.ok (start tickVenue ["BTC/USD"])) (Step tickVenue)
        [(.message "update" (I64.wrap 1672515782200), [out]),
          (.message "snapshot" (I64.wrap 1672515782100), [])] (.ok s) ∧
      TopOfVenue Binance.demoLog 2 out := by
  obtain ⟨out, hout⟩ := Option.isSome_iff_exists.mp tick_emits
  have hupdate : ∃ s, step tickVenue tickSession (.message "update" (I64.wrap 1672515782200)) =
      ([out], .ok s) := by
    rw [tick_step]
    dsimp only
    rw [hout]
    exact ⟨_, rfl⟩
  obtain ⟨s, hs⟩ := hupdate
  have run : Run (.ok (start tickVenue ["BTC/USD"])) (Step tickVenue)
      [(.message "update" (I64.wrap 1672515782200), [out]),
        (.message "snapshot" (I64.wrap 1672515782100), [])] (.ok s) :=
    .step (s := .ok tickSession) (.step .start ⟨_, rfl, rfl⟩) ⟨_, rfl, hs⟩
  have htrue : TrueStream tickVenue Binance.demoLog "BTC/USD"
      [(.message "update" (I64.wrap 1672515782200), [out]),
        (.message "snapshot" (I64.wrap 1672515782100), [])] :=
    ⟨tickUpdate_true, tickSnapshot_true, trivial⟩
  have hfollows := (unnumbered_sessions_follow_stream tickReader tickDates (fun _ _ => none)
    (fun _ => none) (fun _ => none)).1
  obtain ⟨⟨hemitted, -⟩, -⟩ := hfollows Binance.demoLog "BTC/USD" ["BTC/USD"] _ _ run htrue
  have hsymbol : out.symbol = "BTC/USD" := by
    obtain ⟨-, htop⟩ := handOver_spec tickVenue
      (tickBook.applyDeltas tickUpdate.bids tickUpdate.asks (some 2)) tickUpdate
      (I64.wrap 1672515782200)
    exact (htop out hout).symbol
  exact ⟨out, s, run, hemitted out List.mem_cons_self hsymbol⟩

end Example

end Nuntius.PushedSessions
