import Nuntius.InteractivePrograms
import Nuntius.OwnerApprovals

/-!
# Reading a chain over an untrusted transport

Every read is a call whose answer may be anything: a transport fault or any JSON value.
A program may talk to several chains; `C` names them. A call is kept as its method with
the parameters it carries, and the text of the request is left to the transport.
-/

namespace Nuntius.ChainReads
open WireFormat OwnerApprovals InteractivePrograms

inductive ChainError where
  | readMismatch
  | decreasingBurned
  | rpc
deriving DecidableEq, Repr

inductive Finality where
  | tag
  | headMinus (depth : ℕ)
  | finalizedWithDepth (depth : ℕ)
deriving DecidableEq, Repr

inductive CallBlock where
  | number (n : ℕ)
  | canonicalHash (hash : Bytes 32)
deriving DecidableEq

/-- `eth_getBlockByNumber` at a height or at the finalized tag, `eth_blockNumber` and
`eth_call`. -/
inductive RpcCall where
  | getBlockByNumber (number : Option ℕ)
  | blockNumber
  | call (target : Address) (data : List UInt8) (block : CallBlock)
deriving DecidableEq

structure RpcQuery (C : Type) where
  chain : C
  call : RpcCall

/-- The result, when the transport delivered one. -/
abbrev RpcAnswer (C : Type) : RpcQuery C → Type := fun _ => Option Json

abbrev ChainRead (C : Type) := Fallible (RpcAnswer C) ChainError

/-! ### Reading the answers -/

def isHexDigit (c : Char) : Bool :=
  ('0' ≤ c && c ≤ '9') || ('a' ≤ c && c ≤ 'f') || ('A' ≤ c && c ≤ 'F')

/-- A quantity: hexadecimal after `0x`, not empty and without leading zeros. -/
def parseQuantity (v : Json) : Option ℕ := do
  let s ← v.asStr
  let digits ← strip0x s.toList
  if digits.isEmpty || (decide (1 < digits.length) && digits.head? == some '0') ||
      !digits.all isHexDigit then none
  else fromStrRadix 16 digits

/-- One `0x` is stripped here and another by the decoder. -/
def decodeHex (s : String) : Option (List UInt8) :=
  constHexDecode ((strip0x s.toList).getD s.toList)

def parseB256 (v : Json) : Option (Bytes 32) := do
  let s ← v.asStr
  let bytes ← decodeHex s
  toFixed 32 bytes

structure BlockRef where
  number : ℕ
  hash : Bytes 32
  timestamp : ℕ
deriving DecidableEq

/-- A field of a response, present and readable. -/
def field {α : Type} (read : Json → Option α) (resp : Json) (key : String) :
    Except ChainError α :=
  okOr ((resp.get key).bind read) .rpc

/-- A header; one with another number than the requested is a substitution. -/
def parseBlock (requested : Option ℕ) (answer : Option Json) : Except ChainError BlockRef := do
  let resp ← okOr answer .rpc
  let number ← field parseQuantity resp "number"
  if requested.isSome && requested != some number then .error .readMismatch
  else do
    let hash ← field parseB256 resp "hash"
    let timestamp ← field parseQuantity resp "timestamp"
    .ok ⟨number, hash, timestamp⟩

def parseBlockHash (number : ℕ) (answer : Option Json) : Except ChainError (Bytes 32) := do
  let resp ← okOr answer .rpc
  let observed ← field parseQuantity resp "number"
  if observed ≠ number then .error .readMismatch else field parseB256 resp "hash"

def parseHead (answer : Option Json) : Except ChainError ℕ := do
  let resp ← okOr answer .rpc
  okOr (parseQuantity resp) .rpc

def parseCallBytes (answer : Option Json) : Except ChainError (List UInt8) := do
  let resp ← okOr answer .rpc
  let s ← okOr resp.asStr .rpc
  okOr (decodeHex s) .rpc

/-- The first word of a return buffer. -/
def parseCallWord (answer : Option Json) : Except ChainError (Bytes 32) := do
  let bytes ← parseCallBytes answer
  okOr (toFixed 32 (bytes.take 32)) .rpc

/-! ### The reads -/

variable {C : Type} (chain : C)

/-- Ask one call and read its answer. -/
def rpc {α : Type} (call : RpcCall) (read : Option Json → Except ChainError α) :
    ChainRead C α := do
  let answer ← Fallible.query ⟨chain, call⟩
  Fallible.ofExcept (read answer)

def ethBlockNumber : ChainRead C ℕ := rpc chain .blockNumber parseHead

def readBlock (requestedNumber : Option ℕ) : ChainRead C BlockRef :=
  rpc chain (.getBlockByNumber requestedNumber) (parseBlock requestedNumber)

def readBlockHash (number : ℕ) : ChainRead C (Bytes 32) :=
  rpc chain (.getBlockByNumber (some number)) (parseBlockHash number)

def ethCallWord (target : Address) (data : List UInt8) (block : CallBlock) :
    ChainRead C (Bytes 32) :=
  rpc chain (.call target data block) parseCallWord

def checkedSub (a b : ℕ) : Option ℕ := if b ≤ a then some (a - b) else none

/-- The block a read is pinned to. -/
def finalizedBlock : Finality → ChainRead C BlockRef
  | .tag => readBlock chain none
  | .headMinus depth => do
    let head ← ethBlockNumber chain
    readBlock chain (some (head - depth))
  | .finalizedWithDepth depth => do
    let finalized ← readBlock chain none
    let head ← ethBlockNumber chain
    let ceiling ← Fallible.ofExcept (okOr (checkedSub head depth) .rpc)
    if finalized.number ≤ ceiling then pure finalized else readBlock chain (some ceiling)

def selBurned : List UInt8 := [0xa7, 0x50, 0x9b, 0x83]
def selIsValidSigner : List UInt8 := [0xd5, 0xf5, 0x05, 0x82]
def selValidSigner : List UInt8 := [0xba, 0x6f, 0x8b, 0x0e]
def selSignerCount : List UInt8 := [0x7c, 0xa5, 0x48, 0xc6]

/-- Selector and one address, padded to a word. -/
def encodeCall (selector : List UInt8) (arg : Address) : List UInt8 :=
  selector ++ List.replicate 12 0 ++ arg.val

/-- The burned total of a recipient, read twice at one block hash around a second reading of
the header. -/
def burnedFinalized (exit recipient : Address) (finality : Finality) : ChainRead C (ℕ × ℕ) := do
  let block ← finalizedBlock chain finality
  let data := encodeCall selBurned recipient
  let v1 ← ethCallWord chain exit data (.canonicalHash block.hash)
  let hash2 ← readBlockHash chain block.number
  let v2 ← ethCallWord chain exit data (.canonicalHash block.hash)
  if block.hash ≠ hash2 ∨ v1 ≠ v2 then throw .readMismatch
  else pure (beNat v1.val, block.number)

def ensureNotDecreasing (fresh lastSigned : ℕ) : Except ChainError Unit :=
  if fresh < lastSigned then .error .decreasingBurned else .ok ()

inductive Registry where
  | oracle
  | bridge
deriving DecidableEq, Repr

def Registry.validSignerSelector : Registry → List UInt8
  | .oracle => selIsValidSigner
  | .bridge => selValidSigner

def isValidSigner (registry : Address) (kind : Registry) (who : Address) (finality : Finality) :
    ChainRead C Bool := do
  let block ← finalizedBlock chain finality
  let w ← ethCallWord chain registry (encodeCall kind.validSignerSelector who)
    (.number block.number)
  pure (w.val != List.replicate 32 0)

def signerCount (registry : Address) (finality : Finality) : ChainRead C ℕ := do
  let block ← finalizedBlock chain finality
  let w ← ethCallWord chain registry selSignerCount (.number block.number)
  pure (beNat w.val)

/-! ### What a completed read has seen -/

variable {chain}
variable {t : Transcript (RpcAnswer C)}

theorem runs_rpc {α : Type} {call : RpcCall} {read : Option Json → Except ChainError α} {a : α} :
    Fallible.Runs (rpc chain call read) t (.ok a) ↔
      ∃ answer, t = [⟨⟨chain, call⟩, answer⟩] ∧ read answer = .ok a := by
  rw [rpc, Fallible.runs_bind_ok]
  constructor
  · rintro ⟨t₁, t₂, answer, rfl, hq, hread⟩
    obtain ⟨rfl, hok⟩ := Fallible.runs_ofExcept_ok.mp hread
    rw [Fallible.runs_query_ok.mp hq]
    exact ⟨answer, rfl, hok⟩
  · rintro ⟨answer, rfl, hok⟩
    exact ⟨[_], [], answer, rfl, Fallible.runs_query_ok.mpr rfl,
      Fallible.runs_ofExcept_ok.mpr ⟨rfl, hok⟩⟩

theorem checkedSub_eq_some {a b c : ℕ} : checkedSub a b = some c ↔ c + b = a := by
  unfold checkedSub
  split
  · rw [Option.some.injEq]
    omega
  · constructor
    · intro h
      cases h
    · omega

/-- A header read at a height has that number. -/
theorem parseBlock_number {n : ℕ} {answer : Option Json} {block : BlockRef}
    (h : parseBlock (some n) answer = .ok block) : block.number = n := by
  simp only [parseBlock, bind_eq_ok] at h
  obtain ⟨resp, _, number, _, h⟩ := h
  split at h
  · cases h
  · rename_i hnumber
    simp only [bind_eq_ok] at h
    obtain ⟨hash, _, timestamp, _, h⟩ := h
    cases h
    by_contra hne
    exact hnumber (by simpa using fun heq : n = number => hne heq.symm)

/-- How a block was pinned: no higher than the reported finalized block and at least `depth`
below the reported head. -/
structure Pinned (chain : C) (depth : ℕ) (t : Transcript (RpcAnswer C)) (block : BlockRef) :
    Prop where
  reads : ∃ finalizedAnswer headAnswer finalized head,
    parseBlock none finalizedAnswer = .ok finalized ∧ parseHead headAnswer = .ok head ∧
    block.number ≤ finalized.number ∧ block.number + depth ≤ head ∧
    ((block = finalized ∧
        t = [⟨⟨chain, .getBlockByNumber none⟩, finalizedAnswer⟩,
          ⟨⟨chain, .blockNumber⟩, headAnswer⟩]) ∨
      ∃ pinnedAnswer, parseBlock (some block.number) pinnedAnswer = .ok block ∧
        t = [⟨⟨chain, .getBlockByNumber none⟩, finalizedAnswer⟩,
          ⟨⟨chain, .blockNumber⟩, headAnswer⟩,
          ⟨⟨chain, .getBlockByNumber (some block.number)⟩, pinnedAnswer⟩])

theorem pinned_of_finalizedBlock {depth : ℕ} {block : BlockRef}
    (h : Fallible.Runs (finalizedBlock chain (.finalizedWithDepth depth)) t (.ok block)) :
    Pinned chain depth t block := by
  obtain ⟨_, _, finalized, rfl, hfinalized, rest₁⟩ := Fallible.runs_bind_ok.mp h
  obtain ⟨finalizedAnswer, rfl, hparse⟩ := runs_rpc.mp hfinalized
  obtain ⟨_, _, head, rfl, hhead, rest₂⟩ := Fallible.runs_bind_ok.mp rest₁
  obtain ⟨headAnswer, rfl, hparseHead⟩ := runs_rpc.mp hhead
  obtain ⟨_, _, ceiling, rfl, hceiling, rest₃⟩ := Fallible.runs_bind_ok.mp rest₂
  obtain ⟨rfl, hsub⟩ := Fallible.runs_ofExcept_ok.mp hceiling
  have hdepth := checkedSub_eq_some.mp (okOr_eq_ok.mp hsub)
  split at rest₃
  · rename_i hbelow
    obtain ⟨rfl, rfl⟩ := Fallible.runs_pure_ok.mp rest₃
    exact ⟨finalizedAnswer, headAnswer, block, head, hparse, hparseHead, Nat.le_refl _,
      by omega, .inl ⟨rfl, rfl⟩⟩
  · rename_i habove
    obtain ⟨pinnedAnswer, rfl, hpinned⟩ := runs_rpc.mp rest₃
    have hnumber := parseBlock_number hpinned
    subst hnumber
    exact ⟨finalizedAnswer, headAnswer, finalized, head, hparse, hparseHead, by omega,
      by omega, .inr ⟨pinnedAnswer, hpinned, rfl⟩⟩

/-- A burned total read at a pinned block: both calls went to one block hash and answered one
word, and the header read between them still had that hash. -/
structure BurnRead (chain : C) (exit recipient : Address) (depth : ℕ)
    (t : Transcript (RpcAnswer C)) (total number : ℕ) : Prop where
  reads : ∃ pin block word firstAnswer rereadAnswer secondAnswer,
    Pinned chain depth pin block ∧
    t = pin ++
      [⟨⟨chain, .call exit (encodeCall selBurned recipient) (.canonicalHash block.hash)⟩,
          firstAnswer⟩,
        ⟨⟨chain, .getBlockByNumber (some block.number)⟩, rereadAnswer⟩,
        ⟨⟨chain, .call exit (encodeCall selBurned recipient) (.canonicalHash block.hash)⟩,
          secondAnswer⟩] ∧
    parseCallWord firstAnswer = .ok word ∧ parseCallWord secondAnswer = .ok word ∧
    parseBlockHash block.number rereadAnswer = .ok block.hash ∧
    total = beNat word.val ∧ number = block.number

theorem burnRead_of_burnedFinalized {exit recipient : Address} {depth total number : ℕ}
    (h : Fallible.Runs (burnedFinalized chain exit recipient (.finalizedWithDepth depth)) t
      (.ok (total, number))) :
    BurnRead chain exit recipient depth t total number := by
  obtain ⟨pin, _, block, rfl, hpin, rest₁⟩ := Fallible.runs_bind_ok.mp h
  obtain ⟨_, _, v1, rfl, hfirst, rest₂⟩ := Fallible.runs_bind_ok.mp rest₁
  obtain ⟨firstAnswer, rfl, hword1⟩ := runs_rpc.mp hfirst
  obtain ⟨_, _, hash2, rfl, hreread, rest₃⟩ := Fallible.runs_bind_ok.mp rest₂
  obtain ⟨rereadAnswer, rfl, hhash⟩ := runs_rpc.mp hreread
  obtain ⟨_, _, v2, rfl, hsecond, rest₄⟩ := Fallible.runs_bind_ok.mp rest₃
  obtain ⟨secondAnswer, rfl, hword2⟩ := runs_rpc.mp hsecond
  split at rest₄
  · exact absurd rest₄ Fallible.runs_throw_ok
  · rename_i hagree
    obtain ⟨rfl, hret⟩ := Fallible.runs_pure_ok.mp rest₄
    cases hret
    push Not at hagree
    obtain ⟨rfl, rfl⟩ := hagree
    exact ⟨pin, block, v1, firstAnswer, rereadAnswer, secondAnswer,
      pinned_of_finalizedBlock hpin, rfl, hword1, hword2, hhash, rfl, rfl⟩

theorem BurnRead.total_lt {exit recipient : Address} {depth total number : ℕ}
    (h : BurnRead chain exit recipient depth t total number) : total < 2 ^ 256 := by
  obtain ⟨pin, block, word, _, _, _, -, -, -, -, -, rfl, -⟩ := h.reads
  have hword := beNat_lt word.val
  rw [word.property] at hword
  exact hword

/-- The head block, read at the reported height less the depth. -/
theorem runs_headMinus {depth : ℕ} {block : BlockRef}
    (h : Fallible.Runs (finalizedBlock chain (.headMinus depth)) t (.ok block)) :
    ∃ headAnswer blockAnswer head, parseHead headAnswer = .ok head ∧
      parseBlock (some (head - depth)) blockAnswer = .ok block ∧
      t = [⟨⟨chain, .blockNumber⟩, headAnswer⟩,
        ⟨⟨chain, .getBlockByNumber (some (head - depth))⟩, blockAnswer⟩] := by
  obtain ⟨_, _, head, rfl, hhead, rest₁⟩ := Fallible.runs_bind_ok.mp h
  obtain ⟨headAnswer, rfl, hparseHead⟩ := runs_rpc.mp hhead
  obtain ⟨blockAnswer, rfl, hblock⟩ := runs_rpc.mp rest₁
  exact ⟨headAnswer, blockAnswer, head, hparseHead, hblock, rfl⟩

end Nuntius.ChainReads
