import Mathlib.Logic.Relation
import Nuntius.CancellableTasks
import Nuntius.ConcurrentPrograms
import Nuntius.WireFormat

/-!
# Sealing the signing key

A booting enclave fetches the sealed key from the bucket and has it decrypted; if there is
none, it draws a seed, has it encrypted and uploads the blob on the condition that there is
still none. Any number of enclaves do this at the same time. Every step may fail, an enclave
may stop at any point, and an upload may take effect at any time after it was sent, also when
its enclave has given up or is gone.
-/

namespace Nuntius.KeySealing
open WireFormat InteractivePrograms LabelledRuns ConcurrentPrograms

abbrev Seed := Bytes 32
abbrev Blob := List UInt8

structure IamCredentials where
  region : String
  eifBucket : String
  kmsSealingAlias : String

/-- A reply of the store: its status, its body if it can be read, and the body as text, empty
if it cannot. -/
structure HttpReply where
  status : ℕ
  bytes : Except String Blob
  text : String

def HttpReply.Success (reply : HttpReply) : Prop := 200 ≤ reply.status ∧ reply.status ≤ 299

instance (reply : HttpReply) : Decidable reply.Success := inferInstanceAs (Decidable (_ ∧ _))

inductive SealQuery where
  | creds
  | client
  | s3Get (url : String)
  | rsaKeypair
  | attestation (publicKey : List UInt8)
  | kmsDecrypt (blob : Blob) (attestation : List UInt8)
  | entropy
  | kmsEncrypt (keyId : String) (plaintext : Seed)
  | s3Put (url : String) (body : Blob)

abbrev SealResult : SealQuery → Type
  | .creds => IamCredentials
  | .client => Unit
  | .s3Get _ => HttpReply
  | .rsaKeypair => List UInt8
  | .attestation _ => List UInt8
  | .kmsDecrypt _ _ => Seed
  | .entropy => Seed
  | .kmsEncrypt _ _ => Blob
  | .s3Put _ _ => HttpReply

/-- Every step may fail. -/
abbrev SealAnswer (q : SealQuery) : Type := Except String (SealResult q)

abbrev Sealing := Fallible SealAnswer String

def request (q : SealQuery) : Sealing (SealResult q) := do
  let answer ← Fallible.query q
  Fallible.ofExcept answer

/-! ### The code of one boot -/

def s3Key : String := "sealed-key.bin"

def s3Url (creds : IamCredentials) : String :=
  s!"https://{creds.eifBucket}.s3.{creds.region}.amazonaws.com/{s3Key}"

def s3Get (creds : IamCredentials) : Sealing (Option Blob) := do
  let reply ← request (.s3Get (s3Url creds))
  if reply.Success then do
    let blob ← Fallible.ofExcept reply.bytes
    pure (some blob)
  else if reply.status = 404 then pure none
  else throw s!"S3 GET {s3Url creds} HTTP {reply.status}: {reply.text}"

def s3PutIfNotExists (creds : IamCredentials) (body : Blob) : Sealing Unit := do
  let reply ← request (.s3Put (s3Url creds) body)
  if reply.Success then pure ()
  else if reply.status = 412 then
    throw "sealed key already present in S3 (concurrent first-boot)"
  else throw s!"S3 PUT {s3Url creds} HTTP {reply.status}: {reply.text}"

inductive LoadOutcome where
  | unsealedExisting (key : Seed)
  | noSealedBlob

/-- Decrypt for a fresh key pair that the security module attests. -/
def unsealBlob (blob : Blob) : Sealing LoadOutcome := do
  let publicKey ← request .rsaKeypair
  let attestation ← request (.attestation publicKey)
  let key ← request (.kmsDecrypt blob attestation)
  pure (.unsealedExisting key)

def tryUnseal : Sealing LoadOutcome := do
  let creds ← request .creds
  request .client
  let found ← s3Get creds
  match found with
  | some blob => unsealBlob blob
  | none => pure .noSealedBlob

def sealAndUpload (plaintextKey : Seed) : Sealing Unit := do
  let creds ← request .creds
  request .client
  let ciphertext ← request (.kmsEncrypt creds.kmsSealingAlias plaintextKey)
  s3PutIfNotExists creds ciphertext

/-- A failed load is a failure, never a reason to make a new key. -/
def seedFromSealing : Sealing Seed := do
  let outcome ← Fallible.attempt tryUnseal
  match outcome with
  | .ok (.unsealedExisting key) => pure key
  | .ok .noSealedBlob => do
    let seed ← request .entropy
    sealAndUpload seed
    pure seed
  | .error e => throw s!"sealed-key load failed: {e}"

/-! ### Where a returned seed comes from -/

section Origin
variable {t : Transcript SealAnswer}

theorem runs_request_ok {q : SealQuery} {r : SealResult q}
    (h : Fallible.Runs (request q) t (.ok r)) : t = [⟨q, .ok r⟩] := by
  obtain ⟨t₁, t₂, answer, rfl, hq, hans⟩ := Fallible.runs_bind_ok.mp h
  obtain ⟨rfl, rfl⟩ := Fallible.runs_ofExcept_ok.mp hans
  rw [Fallible.runs_query_ok.mp hq]
  rfl

theorem s3Get_some {creds : IamCredentials} {blob : Blob}
    (h : Fallible.Runs (s3Get creds) t (.ok (some blob))) :
    ∃ reply : HttpReply, reply.Success ∧ reply.bytes = .ok blob ∧
      ⟨.s3Get (s3Url creds), .ok reply⟩ ∈ t := by
  obtain ⟨t₁, t₂, reply, rfl, hreply, hrest⟩ := Fallible.runs_bind_ok.mp h
  rw [runs_request_ok hreply]
  split at hrest
  · rename_i success
    obtain ⟨t₃, t₄, body, rfl, hbody, hret⟩ := Fallible.runs_bind_ok.mp hrest
    obtain ⟨-, hsome⟩ := Fallible.runs_pure_ok.mp hret
    cases hsome
    exact ⟨reply, success, (Fallible.runs_ofExcept_ok.mp hbody).2, List.mem_cons_self⟩
  · split at hrest
    · cases (Fallible.runs_pure_ok.mp hrest).2
    · exact absurd hrest Fallible.runs_throw_ok

theorem s3PutIfNotExists_ok {creds : IamCredentials} {body : Blob}
    (h : Fallible.Runs (s3PutIfNotExists creds body) t (.ok ())) :
    ∃ reply : HttpReply, reply.Success ∧ ⟨.s3Put (s3Url creds) body, .ok reply⟩ ∈ t := by
  obtain ⟨t₁, t₂, reply, rfl, hreply, hrest⟩ := Fallible.runs_bind_ok.mp h
  rw [runs_request_ok hreply]
  split at hrest
  · rename_i success
    exact ⟨reply, success, List.mem_cons_self⟩
  · split at hrest <;> exact absurd hrest Fallible.runs_throw_ok

theorem tryUnseal_existing {key : Seed}
    (h : Fallible.Runs tryUnseal t (.ok (.unsealedExisting key))) :
    ∃ url reply blob attestation, reply.Success ∧ reply.bytes = .ok blob ∧
      ⟨.s3Get url, .ok reply⟩ ∈ t ∧ ⟨.kmsDecrypt blob attestation, .ok key⟩ ∈ t := by
  obtain ⟨t₁, t₂, creds, rfl, -, hrest⟩ := Fallible.runs_bind_ok.mp h
  obtain ⟨t₃, t₄, _, rfl, -, hrest⟩ := Fallible.runs_bind_ok.mp hrest
  obtain ⟨t₅, t₆, found, rfl, hget, hrest⟩ := Fallible.runs_bind_ok.mp hrest
  cases found with
  | none => cases (Fallible.runs_pure_ok.mp hrest).2
  | some blob =>
    obtain ⟨reply, success, hbytes, hmem⟩ := s3Get_some hget
    obtain ⟨t₇, t₈, publicKey, rfl, -, hrest⟩ := Fallible.runs_bind_ok.mp hrest
    obtain ⟨t₉, t₁₀, attestation, rfl, -, hrest⟩ := Fallible.runs_bind_ok.mp hrest
    obtain ⟨t₁₁, t₁₂, key', rfl, hkey, hret⟩ := Fallible.runs_bind_ok.mp hrest
    cases (Fallible.runs_pure_ok.mp hret).2
    refine ⟨s3Url creds, reply, blob, attestation, success, hbytes, ?_, ?_⟩
    · simp [hmem]
    · simp [runs_request_ok hkey]

theorem sealAndUpload_ok {seed : Seed} (h : Fallible.Runs (sealAndUpload seed) t (.ok ())) :
    ∃ keyId blob url reply, reply.Success ∧ ⟨.kmsEncrypt keyId seed, .ok blob⟩ ∈ t ∧
      ⟨.s3Put url blob, .ok reply⟩ ∈ t := by
  obtain ⟨t₁, t₂, creds, rfl, -, hrest⟩ := Fallible.runs_bind_ok.mp h
  obtain ⟨t₃, t₄, _, rfl, -, hrest⟩ := Fallible.runs_bind_ok.mp hrest
  obtain ⟨t₅, t₆, blob, rfl, hencrypt, hput⟩ := Fallible.runs_bind_ok.mp hrest
  obtain ⟨reply, success, hmem⟩ := s3PutIfNotExists_ok hput
  refine ⟨creds.kmsSealingAlias, blob, s3Url creds, reply, success, ?_, ?_⟩
  · simp [runs_request_ok hencrypt]
  · simp [hmem]

/-- A returned seed was decrypted from a fetched blob, or encrypted into one whose conditional
upload was confirmed. -/
theorem seedFromSealing_ok {seed : Seed} (h : Fallible.Runs seedFromSealing t (.ok seed)) :
    (∃ url reply blob attestation, reply.Success ∧ reply.bytes = .ok blob ∧
      ⟨.s3Get url, .ok reply⟩ ∈ t ∧ ⟨.kmsDecrypt blob attestation, .ok seed⟩ ∈ t) ∨
    ∃ keyId blob url reply, reply.Success ∧ ⟨.kmsEncrypt keyId seed, .ok blob⟩ ∈ t ∧
      ⟨.s3Put url blob, .ok reply⟩ ∈ t := by
  obtain ⟨t₁, t₂, outcome, rfl, hload, hrest⟩ := Fallible.runs_bind_ok.mp h
  have hload := Fallible.runs_attempt_ok.mp hload
  cases outcome with
  | error e => exact absurd hrest Fallible.runs_throw_ok
  | ok outcome =>
    cases outcome with
    | unsealedExisting key =>
      left
      cases (Fallible.runs_pure_ok.mp hrest).2
      obtain ⟨url, reply, blob, attestation, success, hbytes, hget, hdecrypt⟩ :=
        tryUnseal_existing hload
      exact ⟨url, reply, blob, attestation, success, hbytes, List.mem_append_left _ hget,
        List.mem_append_left _ hdecrypt⟩
    | noSealedBlob =>
      right
      obtain ⟨t₃, t₄, drawn, rfl, -, hrest⟩ := Fallible.runs_bind_ok.mp hrest
      obtain ⟨t₅, t₆, _, rfl, hupload, hret⟩ := Fallible.runs_bind_ok.mp hrest
      cases (Fallible.runs_pure_ok.mp hret).2
      obtain ⟨keyId, blob, url, reply, success, hencrypt, hput⟩ := sealAndUpload_ok hupload
      refine ⟨keyId, blob, url, reply, success, ?_, ?_⟩
      · simp [hencrypt]
      · simp [hput]

end Origin

/-! ### The bucket and the key service -/

/-- The object, and whose upload created it. -/
structure Bucket (ι : Type) where
  object : Option Blob
  creators : List (ι × Blob)
  created : ∀ e ∈ creators, object = some e.2

variable {ι : Type}

def Bucket.empty : Bucket ι := ⟨none, [], nofun⟩

/-- An upload under `If-None-Match: *`. -/
def Bucket.putIfNoneMatch (b : Bucket ι) (i : ι) (blob : Blob) : Bucket ι :=
  match b.object with
  | some _ => b
  | none =>
    { object := some blob
      creators := [(i, blob)]
      created := fun e he => by rw [List.mem_singleton.mp he] }

/-- What a request does to the bucket when it is carried out. -/
def serve (b : Bucket ι) (i : ι) : SealQuery → Bucket ι
  | .s3Put _ body => b.putIfNoneMatch i body
  | _ => b

/-- The replies that can come back. A fetch that succeeds brings the object, and one that finds
nothing is from a time without one; an upload is confirmed only to its creator, and refused
only if there is an object; decryption undoes encryption. Failures can come at any time. -/
def Replies (decrypt : Blob → Option Seed) (b : Bucket ι) (i : ι) :
    (q : SealQuery) → SealAnswer q → Prop
  | .s3Get _, .ok reply =>
    (reply.Success → ∃ blob, b.object = some blob ∧ ∀ body, reply.bytes = .ok body → body = blob) ∧
      (reply.status = 404 → b.object = none)
  | .s3Put _ body, .ok reply =>
    (reply.Success → (i, body) ∈ b.creators) ∧ (reply.status = 412 → b.object ≠ none)
  | .kmsDecrypt blob _, .ok seed => decrypt blob = some seed
  | .kmsEncrypt _ seed, .ok blob => decrypt blob = some seed
  | _, _ => True

def sealing (ι : Type) (decrypt : Blob → Option Seed) :
    System ι SealAnswer (Bucket ι) (Except String Seed) where
  program := fun _ => seedFromSealing.run
  reply := Replies decrypt
  serve := serve

/-! ### Agreement -/

variable {decrypt : Blob → Option Seed}

theorem putIfNoneMatch_object {b : Bucket ι} {blob : Blob} (h : b.object = some blob) (i : ι)
    (body : Blob) : (b.putIfNoneMatch i body).object = some blob := by
  rw [Bucket.putIfNoneMatch, h]
  exact h

theorem serve_object {b : Bucket ι} {blob : Blob} (i : ι) (q : SealQuery)
    (h : b.object = some blob) : (serve b i q).object = some blob := by
  cases q with
  | s3Put url body => exact putIfNoneMatch_object h i body
  | creds => exact h
  | client => exact h
  | s3Get url => exact h
  | rsaKeypair => exact h
  | attestation publicKey => exact h
  | kmsDecrypt blob attestation => exact h
  | entropy => exact h
  | kmsEncrypt keyId plaintext => exact h

/-- What an answer says about the bucket from then on. -/
def Backed (decrypt : Blob → Option Seed) (b : Bucket ι) : (q : SealQuery) → SealAnswer q → Prop
  | .s3Get _, .ok reply => reply.Success → ∀ body, reply.bytes = .ok body → b.object = some body
  | .s3Put _ body, .ok reply => reply.Success → b.object = some body
  | .kmsDecrypt blob _, .ok seed => decrypt blob = some seed
  | .kmsEncrypt _ seed, .ok blob => decrypt blob = some seed
  | _, _ => True

theorem backed_of_reply {b : Bucket ι} {i : ι} {q : SealQuery} {a : SealAnswer q}
    (h : Replies decrypt b i q a) : Backed decrypt b q a := by
  cases a with
  | error e => cases q <;> trivial
  | ok r =>
    cases q with
    | s3Get url =>
      intro success body hbody
      obtain ⟨blob, hobject, honly⟩ := h.1 success
      rw [honly body hbody]
      exact hobject
    | s3Put url body =>
      intro success
      exact b.created (i, body) (h.1 success)
    | kmsDecrypt blob attestation => exact h
    | kmsEncrypt keyId plaintext => exact h
    | creds => trivial
    | client => trivial
    | rsaKeypair => trivial
    | attestation publicKey => trivial
    | entropy => trivial

theorem Backed.served {b : Bucket ι} {q : SealQuery} {a : SealAnswer q}
    (h : Backed decrypt b q a) (i : ι) (q' : SealQuery) : Backed decrypt (serve b i q') q a := by
  cases a with
  | error e => cases q <;> trivial
  | ok r =>
    cases q with
    | s3Get url =>
      intro success body hbody
      exact serve_object i q' (h success body hbody)
    | s3Put url body =>
      intro success
      exact serve_object i q' (h success)
    | kmsDecrypt blob attestation => exact h
    | kmsEncrypt keyId plaintext => exact h
    | creds => trivial
    | client => trivial
    | rsaKeypair => trivial
    | attestation publicKey => trivial
    | entropy => trivial

section Runs
variable [DecidableEq ι] {b : Bucket ι} {labels : List (Label ι SealAnswer)}
  {c : Config ι SealAnswer (Bucket ι)}

/-- Every returned seed is what the stored blob decrypts to. -/
theorem returned_stored (run : Run (Config.start b) (Step (sealing ι decrypt)) labels c) {i : ι}
    {seed : Seed} (returned : Returned (sealing ι decrypt) c i (.ok seed)) :
    ∃ blob, c.world.object = some blob ∧ decrypt blob = some seed := by
  have backed := backed_run (fun b _ => Backed decrypt b) (fun _ _ _ _ => backed_of_reply)
    (fun _ i q _ _ _ h => h.served i q) run i
  obtain ⟨url, reply, blob, attestation, success, hbytes, hget, hdecrypt⟩ |
    ⟨keyId, blob, url, reply, success, hencrypt, hput⟩ := seedFromSealing_ok returned
  · exact ⟨blob, backed _ hget success blob hbytes, backed _ hdecrypt⟩
  · exact ⟨blob, backed _ hput success, backed _ hencrypt⟩

/-- Boots that return a seed return the same one, it is what the stored blob decrypts to, and
from there on the blob stays as it is. -/
theorem sealed_seed_agreed (run : Run (Config.start b) (Step (sealing ι decrypt)) labels c) :
    (∀ i j seed seed', Returned (sealing ι decrypt) c i (.ok seed) →
      Returned (sealing ι decrypt) c j (.ok seed') → seed = seed') ∧
    (∀ i seed, Returned (sealing ι decrypt) c i (.ok seed) →
      ∃ blob, c.world.object = some blob ∧ decrypt blob = some seed) ∧
    ∀ c', Relation.ReflTransGen (fun c c' => ∃ l, Step (sealing ι decrypt) c l c') c c' →
      ∀ blob, c.world.object = some blob → c'.world.object = some blob := by
  refine ⟨?_, fun i seed => returned_stored run, ?_⟩
  · intro i j seed seed' hi hj
    obtain ⟨blob, hblob, hseed⟩ := returned_stored run hi
    obtain ⟨blob', hblob', hseed'⟩ := returned_stored run hj
    cases hblob.symm.trans hblob'
    cases hseed.symm.trans hseed'
    rfl
  · intro c' later blob hblob
    induction later with
    | refl => exact hblob
    | tail _ step ih =>
      obtain ⟨l, now⟩ := step
      exact world_step (fun b => b.object = some blob) (fun _ i q => serve_object i q) now ih

end Runs

/-! ### Two boots

The first enclave finds no blob, draws the seed of sevens and uploads it; the second one
recovers it. -/

def demoSeed : Seed := filled 32 7

/-- Encryption that changes nothing. -/
def demoDecrypt (blob : Blob) : Option Seed := toFixed 32 blob

def demoCreds : IamCredentials := ⟨"eu-central-1", "bucket", "alias/seal"⟩

def demoService (found : HttpReply) : ℕ → (q : SealQuery) → SealAnswer q
  | _, .creds => .ok demoCreds
  | _, .client => .ok ()
  | _, .s3Get _ => .ok found
  | _, .rsaKeypair => .ok []
  | _, .attestation _ => .ok []
  | _, .kmsDecrypt blob _ => okOr (demoDecrypt blob) "no seed"
  | _, .entropy => .ok demoSeed
  | _, .kmsEncrypt _ plaintext => .ok plaintext.val
  | _, .s3Put _ _ => .ok ⟨200, .ok [], ""⟩

def demoPut : (q : SealQuery) × SealAnswer q :=
  ⟨.s3Put (s3Url demoCreds) demoSeed.val, .ok ⟨200, .ok [], ""⟩⟩

/-- What the first enclave hears before its upload is confirmed. -/
def firstAnswers : Transcript SealAnswer :=
  [⟨.creds, .ok demoCreds⟩, ⟨.client, .ok ()⟩,
    ⟨.s3Get (s3Url demoCreds), .ok ⟨404, .ok [], ""⟩⟩, ⟨.entropy, .ok demoSeed⟩,
    ⟨.creds, .ok demoCreds⟩, ⟨.client, .ok ()⟩,
    ⟨.kmsEncrypt "alias/seal" demoSeed, .ok demoSeed.val⟩]

def secondAnswers : Transcript SealAnswer :=
  [⟨.creds, .ok demoCreds⟩, ⟨.client, .ok ()⟩,
    ⟨.s3Get (s3Url demoCreds), .ok ⟨200, .ok demoSeed.val, ""⟩⟩, ⟨.rsaKeypair, .ok []⟩,
    ⟨.attestation [], .ok []⟩, ⟨.kmsDecrypt demoSeed.val [], .ok demoSeed⟩]

theorem firstBoot_runs :
    Prog.Runs seedFromSealing.run (firstAnswers ++ [demoPut]) (.ok demoSeed) :=
  Prog.exec_runs (demoService ⟨404, .ok [], ""⟩) 0 seedFromSealing.run

theorem secondBoot_runs : Prog.Runs seedFromSealing.run secondAnswers (.ok demoSeed) :=
  Prog.exec_runs (demoService ⟨200, .ok demoSeed.val, ""⟩) 0 seedFromSealing.run

theorem firstBoot_asks {v u : Transcript SealAnswer} {q : SealQuery} {a : SealAnswer q}
    (h : firstAnswers ++ [demoPut] = v ++ ⟨q, a⟩ :: u) : Prog.Asks seedFromSealing.run v q := by
  have ran := CancellableTasks.After.of_runs firstBoot_runs
  rw [h] at ran
  exact ran.asks_of_split

theorem secondBoot_asks {v u : Transcript SealAnswer} {q : SealQuery} {a : SealAnswer q}
    (h : secondAnswers = v ++ ⟨q, a⟩ :: u) : Prog.Asks seedFromSealing.run v q := by
  have ran := CancellableTasks.After.of_runs secondBoot_runs
  rw [h] at ran
  exact ran.asks_of_split

theorem firstAnswers_replies (e : (q : SealQuery) × SealAnswer q) (he : e ∈ firstAnswers) :
    Replies demoDecrypt (Bucket.empty : Bucket Bool) false e.1 e.2 := by
  simp only [firstAnswers, List.mem_cons, List.not_mem_nil, or_false] at he
  obtain rfl | rfl | rfl | rfl | rfl | rfl | rfl := he
  · trivial
  · trivial
  · exact ⟨fun success => absurd success (by decide), fun _ => rfl⟩
  · trivial
  · trivial
  · trivial
  · exact toFixed_eq_some.mpr rfl

def demoBucket : Bucket Bool := Bucket.empty.putIfNoneMatch false demoSeed.val

theorem secondAnswers_replies (e : (q : SealQuery) × SealAnswer q) (he : e ∈ secondAnswers) :
    Replies demoDecrypt demoBucket true e.1 e.2 := by
  simp only [secondAnswers, List.mem_cons, List.not_mem_nil, or_false] at he
  obtain rfl | rfl | rfl | rfl | rfl | rfl := he
  · trivial
  · trivial
  · refine ⟨fun _ => ⟨demoSeed.val, rfl, ?_⟩, nofun⟩
    intro body hbody
    cases hbody
    rfl
  · trivial
  · trivial
  · exact toFixed_eq_some.mpr rfl

theorem demo_run : ∃ labels c,
    Run (Config.start Bucket.empty) (Step (sealing Bool demoDecrypt)) labels c ∧
      Returned (sealing Bool demoDecrypt) c false (.ok demoSeed) ∧
      Returned (sealing Bool demoDecrypt) c true (.ok demoSeed) := by
  have booting : Run (Config.start Bucket.empty) (Step (sealing Bool demoDecrypt)) [] _ := .start
  have hfirst : ∀ v q a x, firstAnswers = v ++ ⟨q, a⟩ :: x →
      Prog.Asks seedFromSealing.run ([] ++ v) q := by
    intro v q a x hsplit
    refine firstBoot_asks (u := x ++ [demoPut]) (a := a) ?_
    rw [hsplit, List.append_assoc]
    rfl
  obtain ⟨_, asked⟩ := run_answers (i := false) booting rfl hfirst firstAnswers_replies
  have hput : Prog.Asks seedFromSealing.run firstAnswers demoPut.1 := firstBoot_asks rfl
  have served := asked.step (.served (i := false) (q := demoPut.1) (.inl hput))
  have confirmed := served.step
    (.answered (i := false) (q := demoPut.1) (a := demoPut.2) rfl hput
      ⟨fun _ => List.mem_cons_self, nofun⟩)
  have hsecond : ∀ v q a x, secondAnswers = v ++ ⟨q, a⟩ :: x →
      Prog.Asks seedFromSealing.run ([] ++ v) q := by
    intro v q a x hsplit
    exact secondBoot_asks hsplit
  obtain ⟨labels, run⟩ := run_answers (i := true) confirmed rfl hsecond secondAnswers_replies
  exact ⟨labels, _, run, firstBoot_runs, secondBoot_runs⟩

theorem sealed_seed_agreed_two_boots : ∃ labels c,
    Run (Config.start Bucket.empty) (Step (sealing Bool demoDecrypt)) labels c ∧
      Returned (sealing Bool demoDecrypt) c true (.ok demoSeed) ∧
      (∀ seed, Returned (sealing Bool demoDecrypt) c false (.ok seed) → seed = demoSeed) ∧
      ∃ blob, c.world.object = some blob ∧ demoDecrypt blob = some demoSeed := by
  obtain ⟨labels, c, run, first, second⟩ := demo_run
  obtain ⟨agreed, stored, -⟩ := sealed_seed_agreed run
  exact ⟨labels, c, run, second, fun seed hseed => agreed false true seed demoSeed hseed second,
    stored false demoSeed first⟩

end Nuntius.KeySealing
