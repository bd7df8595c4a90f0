import Nuntius.ByteSources
import Nuntius.SeparatedWords
import Nuntius.WireFormat

/-!
# The tunnel through the egress proxy

`connect_via_proxy` asks the proxy for a connection and reads its response byte by byte, since
whatever follows the response already belongs to the peer. The loop stops at the first blank line
or at the size limit. Its invariant: the bytes taken so far contain no blank line yet.
-/

namespace Nuntius.EgressTunnel
open WireFormat ByteSources SeparatedWords

/-- A connection: what it delivers and what it takes. -/
structure Duplex where
  incoming : Source
  outgoing : Sink
deriving DecidableEq, Repr

inductive TunnelError where
  | connect
  | write
  | read (ending : Ending)
  | report (text : String)
deriving DecidableEq, Repr

def connectRequest (target : String) : String :=
  s!"CONNECT {target} HTTP/1.1\r\nHost: {target}\r\n\r\n"

/-- `\r\n\r\n` -/
def crlfCrlf : List UInt8 := [13, 10, 13, 10]

/-- The loop over the response: one byte, the terminator, the limit. -/
def readResponse (buf : List UInt8) (tcp : Source) : Except TunnelError (List UInt8) × Source :=
  match _h : (tcp.read 1).1 with
  | .error .closed =>
    (.error (.report "egress proxy closed before CONNECT response"), (tcp.read 1).2)
  | .error e => (.error (.read e), (tcp.read 1).2)
  | .ok byte =>
    if crlfCrlf.isSuffixOf (buf ++ byte) then (.ok (buf ++ byte), (tcp.read 1).2)
    else if 8192 < (buf ++ byte).length then
      (.error (.report "egress proxy CONNECT response too large"), (tcp.read 1).2)
    else readResponse (buf ++ byte) (tcp.read 1).2
termination_by tcp.bytes.length
decreasing_by exact Source.read_shrinks Nat.one_pos _h

/-- `str::from_utf8`. -/
def fromUtf8 (bytes : List UInt8) : Option String := String.fromUTF8? ⟨bytes.toArray⟩

/-- The part in front of the first carriage return. -/
def statusLine (buf : List UInt8) : List UInt8 := buf.takeWhile (· != 13)

/-- The second word of the status line is the code. -/
def statusOk (buf : List UInt8) : Bool :=
  (fromUtf8 (statusLine buf)).bind (fun l => (words isWhiteSpace l.toList)[1]?) ==
    some "200".toList

/-- `connect_via_proxy` on an open connection, with what it leaves of it. -/
def openTunnel (tcp : Duplex) (target : String) : Except TunnelError Unit × Duplex :=
  match tcp.outgoing.writeAll (utf8 (connectRequest target)) with
  | (false, outgoing) => (.error .write, { tcp with outgoing })
  | (true, outgoing) =>
    match readResponse [] tcp.incoming with
    | (.error e, incoming) => (.error e, ⟨incoming, outgoing⟩)
    | (.ok buf, incoming) =>
      (if statusOk buf then .ok () else .error (.report "egress proxy refused CONNECT"),
        ⟨incoming, outgoing⟩)

def connectViaProxy (connect : Option Duplex) (target : String) : Except TunnelError Duplex :=
  match connect with
  | none => .error .connect
  | some tcp =>
    match openTunnel tcp target with
    | (.error e, _) => .error e
    | (.ok (), tcp) => .ok tcp

/-! ### The loop -/

/-- The shortest beginning of a stream with the given end. -/
structure ShortestEnding (ending stream taken : List UInt8) : Prop where
  beginning : taken <+: stream
  ends : ending <:+ taken
  shortest : ∀ p, p <+: stream → ending <:+ p → taken.length ≤ p.length

theorem ShortestEnding.unique {ending stream p q : List UInt8} (hp : ShortestEnding ending stream p)
    (hq : ShortestEnding ending stream q) : p = q := by
  have hlen : p.length = q.length :=
    Nat.le_antisymm (hp.shortest q hq.beginning hq.ends) (hq.shortest p hp.beginning hp.ends)
  rw [List.prefix_iff_eq_take.mp hp.beginning, List.prefix_iff_eq_take.mp hq.beginning, hlen]

/-- No beginning of the buffer ends in the terminator. -/
def Unterminated (buf : List UInt8) : Prop := ∀ p, p <+: buf → ¬crlfCrlf <:+ p

theorem unterminated_nil : Unterminated [] := by
  intro p hp hends
  rw [List.prefix_nil.mp hp, List.suffix_nil] at hends
  cases hends

theorem unterminated_of_take {buf : List UInt8}
    (h : ∀ k < buf.length + 1, ¬crlfCrlf <:+ buf.take k) : Unterminated buf := by
  intro p hp hends
  rw [List.prefix_iff_eq_take.mp hp] at hends
  exact h p.length (Nat.lt_succ_of_le hp.length_le) hends

/-- One more byte that does not complete the terminator. -/
theorem Unterminated.concat {buf : List UInt8} (h : Unterminated buf) {b : UInt8}
    (hb : ¬crlfCrlf <:+ buf ++ [b]) : Unterminated (buf ++ [b]) := by
  intro p hp hends
  rcases List.prefix_concat_iff.mp hp with rfl | hp
  · exact hb hends
  · exact h p hp hends

/-- The first byte that completes the terminator ends the response. -/
theorem Unterminated.shortest {buf : List UInt8} (h : Unterminated buf) {b : UInt8}
    (hb : crlfCrlf <:+ buf ++ [b]) (rest : List UInt8) :
    ShortestEnding crlfCrlf (buf ++ b :: rest) (buf ++ [b]) := by
  refine ⟨⟨rest, by rw [List.append_assoc]; rfl⟩, hb, ?_⟩
  intro p hp hends
  by_contra hlt
  have hbuf : p <+: buf := by
    apply List.prefix_of_prefix_length_le hp (List.prefix_append buf _)
    rw [List.length_append, List.length_singleton] at hlt
    omega
  exact h p hbuf hends

section Loop
variable {buf : List UInt8} {tcp : Source}

theorem readResponse_of_nil (h : tcp.bytes = []) :
    ∃ e, (readResponse buf tcp).1 = .error e ∧ (readResponse buf tcp).2.bytes = [] := by
  obtain ⟨hread, hrest⟩ := @Source.read_of_nil 1 tcp h
  rw [readResponse]
  split
  · exact ⟨_, rfl, hrest⟩
  · exact ⟨_, rfl, hrest⟩
  · rename_i byte hbyte
    cases hbyte.symm.trans hread

theorem readResponse_of_cons {b : UInt8} {rest : List UInt8} (h : tcp.bytes = b :: rest) :
    readResponse buf tcp =
      if crlfCrlf.isSuffixOf (buf ++ [b]) then (.ok (buf ++ [b]), (tcp.read 1).2)
      else if 8192 < (buf ++ [b]).length then
        (.error (.report "egress proxy CONNECT response too large"), (tcp.read 1).2)
      else readResponse (buf ++ [b]) (tcp.read 1).2 := by
  obtain ⟨hread, -⟩ := Source.read_one h
  rw [readResponse]
  split
  · rename_i he
    cases he.symm.trans hread
  · rename_i he
    cases he.symm.trans hread
  · rename_i byte hbyte
    obtain rfl := Except.ok.inj (hbyte.symm.trans hread)
    rfl

end Loop

/-- What the loop does from a buffer without a terminator and with these bytes to come: it takes at
most `8193` bytes in all, returns exactly what it has taken, and succeeds exactly if the terminator
comes in time. -/
structure LoopSpec (buf bytes : List UInt8) (out : Except TunnelError (List UInt8) × Source) :
    Prop where
  consumed : ∃ taken, bytes = taken ++ out.2.bytes ∧ (buf ++ taken).length ≤ 8193 ∧
    ∀ resp, out.1 = .ok resp → resp = buf ++ taken
  sound : ∀ resp, out.1 = .ok resp → ShortestEnding crlfCrlf (buf ++ bytes) resp
  complete : ∀ resp, ShortestEnding crlfCrlf (buf ++ bytes) resp → resp.length ≤ 8193 →
    out.1 = .ok resp

section Spec
variable {buf bytes rest : List UInt8} {b : UInt8}
  {out : Except TunnelError (List UInt8) × Source}

/-- A failure is right if no terminator can come in time. -/
theorem LoopSpec.of_error (taken : List UInt8) {e : TunnelError} (herror : out.1 = .error e)
    (hbytes : bytes = taken ++ out.2.bytes) (hlen : (buf ++ taken).length ≤ 8193)
    (hnone : ∀ resp, ShortestEnding crlfCrlf (buf ++ bytes) resp → 8193 < resp.length) :
    LoopSpec buf bytes out where
  consumed := by
    refine ⟨taken, hbytes, hlen, ?_⟩
    intro resp h
    cases herror.symm.trans h
  sound resp h := by
    cases herror.symm.trans h
  complete resp h hle := absurd hle (Nat.not_le.mpr (hnone resp h))

/-- The byte that completes the terminator ends the loop. -/
theorem LoopSpec.of_terminated (hbuf : Unterminated buf) (hlen : buf.length ≤ 8192)
    (hends : crlfCrlf <:+ buf ++ [b]) (hok : out.1 = .ok (buf ++ [b]))
    (hrest : out.2.bytes = rest) : LoopSpec buf (b :: rest) out := by
  have hshort := hbuf.shortest hends rest
  refine ⟨⟨[b], congrArg (b :: ·) hrest.symm, ?_, ?_⟩, ?_, ?_⟩
  · rw [List.length_append, List.length_singleton]
    omega
  · intro resp h
    exact Except.ok.inj (h.symm.trans hok)
  · intro resp h
    rw [Except.ok.inj (h.symm.trans hok)]
    exact hshort
  · intro resp h _
    rw [h.unique hshort, hok]

/-- What holds after one more byte held before it. -/
theorem LoopSpec.of_concat (h : LoopSpec (buf ++ [b]) rest out) : LoopSpec buf (b :: rest) out := by
  have hstream : buf ++ b :: rest = (buf ++ [b]) ++ rest := by
    rw [List.append_assoc]
    rfl
  obtain ⟨taken, htaken, hbound, hwhole⟩ := h.consumed
  rw [List.append_assoc] at hbound
  refine ⟨⟨b :: taken, congrArg (b :: ·) htaken, hbound, ?_⟩, ?_, ?_⟩
  · intro resp hresp
    rw [hwhole resp hresp, List.append_assoc]
    rfl
  · rw [hstream]
    exact h.sound
  · rw [hstream]
    exact h.complete

end Spec

theorem readResponse_spec {buf : List UInt8} (hbuf : Unterminated buf) (hlen : buf.length ≤ 8192)
    {tcp : Source} {bytes : List UInt8} (hbytes : tcp.bytes = bytes) :
    LoopSpec buf bytes (readResponse buf tcp) := by
  induction bytes generalizing buf tcp with
  | nil =>
    obtain ⟨e, herror, hrest⟩ := @readResponse_of_nil buf tcp hbytes
    apply LoopSpec.of_error [] herror hrest.symm
    · rw [List.append_nil]
      omega
    · intro resp h
      rw [List.append_nil] at h
      exact absurd h.ends (hbuf resp h.beginning)
  | cons b rest ih =>
    obtain ⟨-, hrest⟩ := Source.read_one hbytes
    have hlen' : (buf ++ [b]).length = buf.length + 1 := List.length_append
    rw [readResponse_of_cons hbytes]
    split_ifs with hends hlarge
    · exact .of_terminated hbuf hlen (List.isSuffixOf_iff_suffix.mp hends) rfl hrest
    · -- the limit is reached, so a beginning with the terminator is longer than the buffer
      have hopen := hbuf.concat (fun h => hends (List.isSuffixOf_iff_suffix.mpr h))
      apply LoopSpec.of_error [b] rfl (congrArg (b :: ·) hrest.symm) (by omega)
      intro resp h
      by_contra hle
      have hresp : resp <+: buf ++ [b] := by
        apply List.prefix_of_prefix_length_le h.beginning ⟨rest, List.append_assoc _ _ _⟩
        omega
      exact hopen resp hresp h.ends
    · have hopen := hbuf.concat (fun h => hends (List.isSuffixOf_iff_suffix.mpr h))
      exact (ih hopen (by omega) hrest).of_concat

/-! ### The status line -/

theorem fromUtf8_eq_some {bytes : List UInt8} {s : String} :
    fromUtf8 bytes = some s ↔ utf8 s = bytes := by
  change (if h : (ByteArray.mk bytes.toArray).IsValidUTF8 then
    some (String.fromUTF8 (ByteArray.mk bytes.toArray) h) else none) = some s ↔ _
  constructor
  · intro h
    split_ifs at h
    obtain rfl := Option.some.inj h
    rfl
  · rintro rfl
    have hs : ByteArray.mk (utf8 s).toArray = s.toByteArray := rfl
    rw [dif_pos (hs ▸ s.isValidUTF8)]
    rfl

/-- The bytes in front of the first carriage return are a text whose second word is `200`. -/
def Accepted (resp : List UInt8) : Prop :=
  ∃ line : String, utf8 line = resp.takeWhile (· != 13) ∧
    SecondWord isWhiteSpace line.toList "200".toList

theorem statusOk_iff {buf : List UInt8} : statusOk buf = true ↔ Accepted buf := by
  rw [statusOk, beq_iff_eq, Option.bind_eq_some_iff]
  simp only [fromUtf8_eq_some, words_second]
  rfl

/-! ### The tunnel -/

section Tunnel
variable {tcp : Duplex} {target : String}
  (hwritten : (tcp.outgoing.writeAll (utf8 (connectRequest target))).1 = true)
include hwritten

/-- With the request written, the rest is the response and its status. -/
theorem openTunnel_eq :
    openTunnel tcp target =
      ((readResponse [] tcp.incoming).1 >>= fun resp =>
        if statusOk resp then .ok () else .error (.report "egress proxy refused CONNECT"),
      ⟨(readResponse [] tcp.incoming).2,
        (tcp.outgoing.writeAll (utf8 (connectRequest target))).2⟩) := by
  unfold openTunnel
  rcases hwrite : tcp.outgoing.writeAll (utf8 (connectRequest target)) with ⟨ok, outgoing⟩
  rw [hwrite] at hwritten
  obtain rfl : ok = true := hwritten
  dsimp only
  rcases readResponse [] tcp.incoming with ⟨result, incoming⟩
  cases result <;> rfl

theorem openTunnel_incoming :
    (openTunnel tcp target).2.incoming = (readResponse [] tcp.incoming).2 := by
  rw [openTunnel_eq hwritten]

theorem openTunnel_ok :
    (openTunnel tcp target).1 = .ok () ↔
      ∃ resp, (readResponse [] tcp.incoming).1 = .ok resp ∧ Accepted resp := by
  rw [openTunnel_eq hwritten, bind_eq_ok]
  simp only [← statusOk_iff]
  apply exists_congr
  intro resp
  apply and_congr_right
  intro _
  cases statusOk resp <;> simp

end Tunnel

theorem connectViaProxy_eq_ok {tcp tunnel : Duplex} {target : String} :
    connectViaProxy (some tcp) target = .ok tunnel ↔
      (openTunnel tcp target).1 = .ok () ∧ (openTunnel tcp target).2 = tunnel := by
  unfold connectViaProxy
  dsimp only
  split <;> rename_i h <;> rw [h] <;> simp

/-- Once the request is written, the tunnel opens exactly behind a response of at most `8193`
bytes whose status is `200`, and the next byte read is the first one after the response. -/
theorem tunnel_opens_behind_response (tcp : Duplex) (target : String)
    (hwritten : (tcp.outgoing.writeAll (utf8 (connectRequest target))).1 = true) :
    ((∃ tunnel, connectViaProxy (some tcp) target = .ok tunnel) ↔
      ∃ resp, ShortestEnding crlfCrlf tcp.incoming.bytes resp ∧ resp.length ≤ 8193 ∧
        Accepted resp) ∧
    (∀ tunnel resp, connectViaProxy (some tcp) target = .ok tunnel →
      ShortestEnding crlfCrlf tcp.incoming.bytes resp →
        tcp.incoming.bytes = resp ++ tunnel.incoming.bytes ∧
        ∀ b rest, tcp.incoming.bytes = resp ++ b :: rest →
          (tunnel.incoming.read 1).1 = .ok [b]) ∧
    ∃ consumed, consumed.length ≤ 8193 ∧
      tcp.incoming.bytes = consumed ++ (openTunnel tcp target).2.incoming.bytes := by
  have hspec := readResponse_spec unterminated_nil (Nat.zero_le _) (Eq.refl tcp.incoming.bytes)
  obtain ⟨consumed, hconsumed, hbound, hwhole⟩ := hspec.consumed
  have hincoming := openTunnel_incoming hwritten
  refine ⟨⟨?_, ?_⟩, ?_, consumed, hbound, hincoming ▸ hconsumed⟩
  · rintro ⟨tunnel, h⟩
    obtain ⟨resp, hread, haccepted⟩ := (openTunnel_ok hwritten).mp (connectViaProxy_eq_ok.mp h).1
    have hle : resp.length ≤ 8193 := hwhole resp hread ▸ hbound
    exact ⟨resp, hspec.sound resp hread, hle, haccepted⟩
  · rintro ⟨resp, hshort, hle, haccepted⟩
    have hok := (openTunnel_ok hwritten).mpr ⟨resp, hspec.complete resp hshort hle, haccepted⟩
    exact ⟨_, connectViaProxy_eq_ok.mpr ⟨hok, rfl⟩⟩
  · intro tunnel resp h hshort
    obtain ⟨hok, rfl⟩ := connectViaProxy_eq_ok.mp h
    obtain ⟨resp', hread, -⟩ := (openTunnel_ok hwritten).mp hok
    have hresp : resp = consumed := by
      rw [hshort.unique (hspec.sound resp' hread), hwhole resp' hread]
      rfl
    rw [hincoming, hresp]
    refine ⟨hconsumed, ?_⟩
    intro b rest hnext
    exact (Source.read_one (List.append_cancel_left (hconsumed.symm.trans hnext))).1

/-- A response in two pieces, the first bytes of the peer behind it. -/
def demoTcp : Duplex :=
  ⟨⟨[utf8 "HTTP/1.1 20", utf8 "0 OK\r\n\r\n" ++ [22, 3]], .closed⟩, .unbounded⟩

theorem tunnel_opens_behind_response_demo :
    ∃ tunnel, connectViaProxy (some demoTcp) "10.0.0.7:8443" = .ok tunnel ∧
      tunnel.incoming.bytes = [22, 3] := by
  obtain ⟨hopens, hbehind, -⟩ := tunnel_opens_behind_response demoTcp "10.0.0.7:8443" rfl
  have hbytes : demoTcp.incoming.bytes = utf8 "HTTP/1.1 200 OK\r\n\r" ++ 10 :: [22, 3] := by
    decide +kernel
  have hopen : Unterminated (utf8 "HTTP/1.1 200 OK\r\n\r") :=
    unterminated_of_take (by decide +kernel)
  have hshort := hopen.shortest (by decide +kernel : crlfCrlf <:+ _ ++ [10]) [22, 3]
  rw [← hbytes] at hshort
  have haccepted : Accepted (utf8 "HTTP/1.1 200 OK\r\n\r" ++ [10]) :=
    ⟨"HTTP/1.1 200 OK", by decide +kernel, words_second.mp (by decide +kernel)⟩
  obtain ⟨tunnel, htunnel⟩ := hopens.mpr ⟨_, hshort, by decide +kernel, haccepted⟩
  have hsplit := (hbehind tunnel _ htunnel hshort).1
  rw [hbytes, List.append_assoc] at hsplit
  exact ⟨tunnel, htunnel, (List.cons.inj (List.append_cancel_left hsplit)).2.symm⟩

end Nuntius.EgressTunnel
