import Mathlib.Data.FinEnum
import Mathlib.Data.Finite.Vector
import Nuntius.Aggregator
import Nuntius.SelfDelimiting

/-!
# What the hash of the sources commits to

The hasher is fed the name of a source, a bar and the eight bytes of its price, sample after
sample, with nothing that counts the samples or ends one. Names without a bar end at the first
bar and prices after eight bytes, so what is fed determines the samples. No hash into 32 bytes
is injective; what is needed of Keccak-256 is that the two byte strings compared do not collide.
-/

namespace Nuntius.Aggregator
open WireFormat SelfDelimiting

variable {F D : Type}

/-- What the hasher has been fed after one more sample. -/
def fedSample (toBeBytes : F → Bytes 8) (fed : List UInt8) (p : PricePoint F) : List UInt8 :=
  fed ++ utf8 p.source ++ [124] ++ (toBeBytes p.price).val

/-- `sources_hash` with any hash of byte strings as its hasher. -/
def sourcesHashWith (hash : List UInt8 → D) (toBeBytes : F → Bytes 8)
    (prices : List (PricePoint F)) : D :=
  hash (prices.foldl (fedSample toBeBytes) [])

theorem foldl_fedSample (H : Digests F) (fed : List UInt8) (prices : List (PricePoint F)) :
    prices.foldl (fedSample H.toBeBytes) fed = fed ++ prices.flatMap H.entry := by
  induction prices generalizing fed with
  | nil => simp
  | cons p prices ih => simp [ih, fedSample, Digests.entry]

theorem sourcesHashWith_eq (hash : List UInt8 → D) (H : Digests F) (prices : List (PricePoint F)) :
    sourcesHashWith hash H.toBeBytes prices = hash (prices.flatMap H.entry) := by
  rw [sourcesHashWith, foldl_fedSample, List.nil_append]

theorem sourcesHash_eq (H : Digests F) (prices : List (PricePoint F)) :
    sourcesHash H prices = sourcesHashWith H.keccak256 H.toBeBytes prices :=
  (sourcesHashWith_eq H.keccak256 H prices).symm

/-- There are more byte strings than hashes. -/
theorem keccak256_not_injective (H : Digests F) : ¬ Function.Injective H.keccak256 := by
  have : Finite (Bytes 32) := inferInstanceAs (Finite (List.Vector UInt8 32))
  exact not_injective_infinite_finite H.keccak256

/-! ### The samples are known from what is fed -/

/-- The name contains no bar. -/
def Unbarred (source : String) : Prop := 124 ∉ utf8 source

instance (source : String) : Decidable (Unbarred source) :=
  inferInstanceAs (Decidable (124 ∉ utf8 source))

/-- What is hashed of a sample. -/
def sampleKey (H : Digests F) (p : PricePoint F) : List UInt8 × Bytes 8 :=
  (utf8 p.source, H.toBeBytes p.price)

/-- A name closed by a bar, then a price. -/
def keyBytes (key : List UInt8 × Bytes 8) : List UInt8 := (key.1 ++ [124]) ++ key.2.val

theorem delimits_keyBytes : Delimits keyBytes (fun key => 124 ∉ key.1 ∧ True) :=
  (delimits_terminated 124).append (delimits_fixed 8)

theorem keyBytes_ne_nil (key : List UInt8 × Bytes 8) : keyBytes key ≠ [] := by
  simp [keyBytes]

theorem flatMap_entry (H : Digests F) (prices : List (PricePoint F)) :
    prices.flatMap H.entry = (prices.map (sampleKey H)).flatMap keyBytes := by
  rw [List.flatMap_map]
  congr 1
  funext p
  simp [Digests.entry, keyBytes, sampleKey]

/-- As many samples, with the same names and the same price bytes in the same places. -/
structure SameSamples (H : Digests F) (ps qs : List (PricePoint F)) : Prop where
  length_eq : ps.length = qs.length
  source_eq : ∀ i (hp : i < ps.length) (hq : i < qs.length), ps[i].source = qs[i].source
  price_eq : ∀ i (hp : i < ps.length) (hq : i < qs.length),
    (H.toBeBytes ps[i].price).val = (H.toBeBytes qs[i].price).val

theorem sameSamples_iff {H : Digests F} {ps qs : List (PricePoint F)} :
    SameSamples H ps qs ↔ ps.map (sampleKey H) = qs.map (sampleKey H) := by
  rw [List.ext_getElem_iff]
  simp only [List.length_map, List.getElem_map, sampleKey, Prod.mk.injEq, utf8_inj,
    Subtype.ext_iff]
  constructor
  · rintro ⟨hlength, hsource, hprice⟩
    exact ⟨hlength, fun i hp hq => ⟨hsource i hp hq, hprice i hp hq⟩⟩
  · rintro ⟨hlength, heach⟩
    exact ⟨hlength, fun i hp hq => (heach i hp hq).1, fun i hp hq => (heach i hp hq).2⟩

section Commitment
variable {H : Digests F} {ps qs : List (PricePoint F)} (hps : ∀ p ∈ ps, Unbarred p.source)
  (hqs : ∀ q ∈ qs, Unbarred q.source)
include hps hqs

theorem flatMap_entry_inj : ps.flatMap H.entry = qs.flatMap H.entry ↔ SameSamples H ps qs := by
  have hkeys : ∀ {prices : List (PricePoint F)}, (∀ p ∈ prices, Unbarred p.source) →
      ∀ key ∈ prices.map (sampleKey H), 124 ∉ key.1 ∧ True := by
    intro prices hprices key hkey
    obtain ⟨p, hp, rfl⟩ := List.mem_map.mp hkey
    exact ⟨hprices p hp, trivial⟩
  rw [sameSamples_iff, flatMap_entry, flatMap_entry]
  exact delimits_keyBytes.flatMap_inj (fun key _ => keyBytes_ne_nil key) (hkeys hps) (hkeys hqs)

/-- A hash that does not confuse the two inputs tells the samples apart. -/
theorem sourcesHashWith_eq_iff {hash : List UInt8 → D}
    (hinj : Set.InjOn hash {ps.flatMap H.entry, qs.flatMap H.entry}) :
    sourcesHashWith hash H.toBeBytes ps = sourcesHashWith hash H.toBeBytes qs ↔
      SameSamples H ps qs := by
  rw [sourcesHashWith_eq, sourcesHashWith_eq, hinj.eq_iff (Set.mem_insert _ _)
    (Set.mem_insert_of_mem _ (Set.mem_singleton _))]
  exact flatMap_entry_inj hps hqs

end Commitment

/-- What is hashed of the two lists does not collide. -/
def NoCollision (H : Digests F) (ps qs : List (PricePoint F)) : Prop :=
  Set.InjOn H.keccak256 {ps.flatMap H.entry, qs.flatMap H.entry}

theorem noCollision_of_imp {H : Digests F} {ps qs : List (PricePoint F)}
    (h : sourcesHash H ps = sourcesHash H qs → ps.flatMap H.entry = qs.flatMap H.entry) :
    NoCollision H ps qs := by
  rintro _ (rfl | rfl) _ (rfl | rfl) heq
  · rfl
  · exact h heq
  · exact (h heq.symm).symm
  · rfl

theorem sourcesHash_eq_iff {H : Digests F} {ps qs : List (PricePoint F)}
    (hps : ∀ p ∈ ps, Unbarred p.source) (hqs : ∀ q ∈ qs, Unbarred q.source)
    (hcollision : NoCollision H ps qs) :
    sourcesHash H ps = sourcesHash H qs ↔ SameSamples H ps qs := by
  rw [sourcesHash_eq, sourcesHash_eq]
  exact sourcesHashWith_eq_iff hps hqs hcollision

/-- The hash of the sources commits to the list of samples, whatever bytes the prices have: with
any injective hash, and with Keccak-256 as far as it does not confuse the two lists compared. -/
theorem sources_hash_commits (H : Digests F) {ps qs : List (PricePoint F)}
    (hps : ∀ p ∈ ps, Unbarred p.source) (hqs : ∀ q ∈ qs, Unbarred q.source) :
    (∀ (D : Type) (hash : List UInt8 → D), Function.Injective hash →
      (sourcesHashWith hash H.toBeBytes ps = sourcesHashWith hash H.toBeBytes qs ↔
        SameSamples H ps qs)) ∧
    (NoCollision H ps qs → (sourcesHash H ps = sourcesHash H qs ↔ SameSamples H ps qs)) := by
  constructor
  · intro D hash hinj
    exact sourcesHashWith_eq_iff hps hqs hinj.injOn
  · intro hcollision
    exact sourcesHash_eq_iff hps hqs hcollision

/-- Prices that are their own bytes, and a hash that keeps the front of its input. -/
def cutDigests : Digests (Bytes 8) where
  keccak256 bytes := ⟨(bytes ++ List.replicate 32 0).take 32, by simp⟩
  toBeBytes := id

/-- A sample whose price bytes are made of bars and letters. -/
def barredSample (source : String) (letter : UInt8) : PricePoint (Bytes 8) :=
  ⟨⟨[letter, 124, letter, 124, letter, 124, letter, 124], rfl⟩, filled 8 0, source, 0⟩

def samplesAB : List (PricePoint (Bytes 8)) := [barredSample "a" 98, barredSample "b" 97]

def samplesBA : List (PricePoint (Bytes 8)) := [barredSample "b" 97, barredSample "a" 98]

/-- Bars and letters in the prices do not make two orders of the same samples look alike. -/
theorem sources_hash_commits_demo :
    sourcesHashWith id cutDigests.toBeBytes samplesAB ≠
        sourcesHashWith id cutDigests.toBeBytes samplesBA ∧
      sourcesHash cutDigests samplesAB ≠ sourcesHash cutDigests samplesBA := by
  have hnames : ∀ p ∈ samplesAB, Unbarred p.source := by decide
  have hnames' : ∀ p ∈ samplesBA, Unbarred p.source := by decide
  have hdiffer : ¬ SameSamples cutDigests samplesAB samplesBA := by
    intro h
    exact absurd (h.source_eq 0 (by decide) (by decide)) (by decide)
  have hcollision : NoCollision cutDigests samplesAB samplesBA :=
    noCollision_of_imp fun heq => absurd heq (by decide +kernel)
  obtain ⟨hany, hkeccak⟩ := sources_hash_commits cutDigests hnames hnames'
  exact ⟨fun heq => hdiffer ((hany _ id Function.injective_id).mp heq),
    fun heq => hdiffer ((hkeccak hcollision).mp heq)⟩

/-- A bar in a name can hide a sample: where the price bytes of a sample are a text, it and the
next one are hashed like one sample with a longer name. -/
theorem sourcesHash_merge (H : Digests F) {p : PricePoint F} {text : String}
    (htext : utf8 text = (H.toBeBytes p.price).val) (q : PricePoint F)
    (before after : List (PricePoint F)) :
    sourcesHash H (before ++ p :: q :: after) =
      sourcesHash H (before ++ { q with source := p.source ++ "|" ++ text ++ q.source } ::
        after) := by
  have hbar : utf8 "|" = [124] := by decide
  simp [sourcesHash, Digests.entry, utf8_append, htext, hbar]

end Nuntius.Aggregator
