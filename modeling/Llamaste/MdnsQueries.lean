import Llamaste.MdnsLayout

/-!
# Answering queries

The responder goes through the questions of a packet and answers those for its own name and for
the services it advertises. Packets come from anyone on the network, so the readers of questions
and of responses must keep to the packet whatever it says.

Source: `net_mdns.cpp`.

## Main results

* `reads_in_packet`: every reader of a packet ends, and reads no byte outside of it.
-/

namespace Llamaste

open Wire

def dnsTypeAny : UInt16 := 255
def mdnsTtl : UInt32 := 120

/-- `build_response`. -/
def buildResponse (fqdn : Text) (ip : Vector UInt8 4) (queryId : UInt16) : Bytes :=
  put16 queryId ++ (put16 (dnsFlagResponse ||| dnsFlagAuthoritative) ++ (put16 0 ++ (put16 1 ++
    (put16 0 ++ (put16 0 ++ encodeRecord fqdn dnsTypeA (dnsClassIn ||| 0x8000) mdnsTtl
      (octets ip))))))

/-- What a `MdnsResponder` answers for: its own name and its services. -/
structure MdnsResponder where
  fqdn : Text
  services : List MdnsServiceRecord

namespace MdnsResponder

/-- `ensure_ip`, where `localIp` is the address that `get_local_ip` finds. -/
def ensureIp (localIp ip : Vector UInt8 4) : Vector UInt8 4 :=
  if octets ip = [0, 0, 0, 0] then localIp else ip

/-- The answer to a query for the address of the host, if it is one. -/
def answerAddress (r : MdnsResponder) (localIp : Vector UInt8 4) (txId : UInt16) (qname : Text)
    (qtype qclass : UInt16) (ip : Vector UInt8 4) : Vector UInt8 4 × List Bytes :=
  if (qtype = dnsTypeA ∨ qtype = dnsTypeAny) ∧ qclass = dnsClassIn ∧ dnsNameEq qname r.fqdn then
    (ensureIp localIp ip, [buildResponse r.fqdn (ensureIp localIp ip) txId])
  else (ip, [])

/-- The answer to a query for a service that is advertised, if it is one. -/
def answerService (r : MdnsResponder) (localIp : Vector UInt8 4) (txId : UInt16) (qname : Text)
    (qtype qclass : UInt16) (ip : Vector UInt8 4) : Vector UInt8 4 × List Bytes :=
  if (qtype = dnsTypePtr ∨ qtype = dnsTypeAny) ∧ qclass = dnsClassIn then
    match r.services.find? fun s => dnsNameEq qname s.browseName with
    | some svc => (ensureIp localIp ip,
        [buildServiceResponse svc r.fqdn (ensureIp localIp ip) txId])
    | none => (ip, [])
  else (ip, [])

/-- The loop over the questions, on the address that is announced. It returns the packets that are
sent. -/
def questionLoop (r : MdnsResponder) (localIp : Vector UInt8 4) (pkt : Bytes) (txId : UInt16) :
    ℕ → ℕ → Vector UInt8 4 → Option (Vector UInt8 4 × List Bytes)
  | 0, _, ip => some (ip, [])
  | n + 1, offset, ip =>
    if offset < pkt.length then do
      let (qname, offset) ← decodeDnsName pkt offset
      if offset + 4 > pkt.length then
        return (ip, [])
      let qtype ← get16 pkt offset
      let qclass ← get16 pkt (offset + 2)
      let (ip, address) := r.answerAddress localIp txId qname qtype (qclass &&& 0x7FFF) ip
      let (ip, service) := r.answerService localIp txId qname qtype (qclass &&& 0x7FFF) ip
      let (ip, rest) ← questionLoop r localIp pkt txId n (offset + 4) ip
      return (ip, address ++ service ++ rest)
    else
      some (ip, [])

/-- One packet in `run_loop`. -/
def runLoopRound (r : MdnsResponder) (localIp : Vector UInt8 4) (pkt : Bytes)
    (ip : Vector UInt8 4) : Option (Vector UInt8 4 × List Bytes) := do
  if pkt.length < 12 then
    return (ip, [])
  let txId ← get16 pkt 0
  let flags ← get16 pkt 2
  let qdcount ← get16 pkt 4
  if flags &&& dnsFlagResponse ≠ 0 then
    return (ip, [])
  questionLoop r localIp pkt txId qdcount.toNat 12 ip

/-- The loop reads inside of the packet. -/
theorem exists_questionLoop (r : MdnsResponder) (localIp : Vector UInt8 4) (pkt : Bytes)
    (txId : UInt16) (n offset : ℕ) (ip : Vector UInt8 4) :
    ∃ sent, r.questionLoop localIp pkt txId n offset ip = some sent := by
  induction n generalizing offset ip with
  | zero => exact ⟨_, rfl⟩
  | succ n ih =>
    rw [questionLoop, decodeDnsName_eq]
    dsimp only [Option.bind_eq_bind, Option.bind_some, Option.pure_def]
    by_cases hoffset : offset < pkt.length
    · rw [if_pos hoffset]
      by_cases hfits : nameEnd pkt offset + 4 > pkt.length
      · rw [if_pos hfits]
        exact ⟨_, rfl⟩
      · rw [if_neg hfits, get16_eq (by omega), get16_eq (i := nameEnd pkt offset + 2) (by omega)]
        dsimp only [Option.bind_some]
        obtain ⟨rest, hrest⟩ := ih (nameEnd pkt offset + 4) (r.answerService localIp txId
          (nameText pkt offset) (word pkt (nameEnd pkt offset))
          (word pkt (nameEnd pkt offset + 2) &&& 0x7FFF) (r.answerAddress localIp txId
            (nameText pkt offset) (word pkt (nameEnd pkt offset))
            (word pkt (nameEnd pkt offset + 2) &&& 0x7FFF) ip).1).1
        rw [hrest]
        exact ⟨_, rfl⟩
    · rw [if_neg hoffset]
      exact ⟨_, rfl⟩

theorem exists_runLoopRound (r : MdnsResponder) (localIp : Vector UInt8 4) (pkt : Bytes)
    (ip : Vector UInt8 4) : ∃ sent, r.runLoopRound localIp pkt ip = some sent := by
  rw [runLoopRound]
  dsimp only [Option.bind_eq_bind, Option.pure_def]
  by_cases hlen : pkt.length < 12
  · rw [if_pos hlen]
    exact ⟨_, rfl⟩
  · rw [if_neg hlen, get16_eq (by omega), get16_eq (i := 2) (by omega),
      get16_eq (i := 4) (by omega)]
    dsimp only [Option.bind_some]
    split_ifs
    · exact ⟨_, rfl⟩
    · exact exists_questionLoop r localIp pkt _ _ _ ip

end MdnsResponder

/-- **Every reader of a packet ends and reads no byte outside of it.** A name ends between its
offset and the end of the packet, and is not longer than eleven packets. -/
theorem reads_in_packet (pkt : Bytes) :
    (∀ offset ≤ pkt.length, ∃ name stop, decodeDnsName pkt offset = some (name, stop) ∧
      offset ≤ stop ∧ stop ≤ pkt.length ∧ name.length ≤ 11 * pkt.length) ∧
    (∀ serviceType, ∃ found, parseServiceResponses pkt serviceType = some found) ∧
    ∀ (r : MdnsResponder) (localIp ip : Vector UInt8 4),
      ∃ sent, r.runLoopRound localIp pkt ip = some sent := by
  refine ⟨fun offset hoffset => ?_, fun serviceType => ?_, fun r localIp ip => ?_⟩
  · exact ⟨_, _, decodeDnsName_eq pkt offset, le_nameEnd hoffset, nameEnd_le hoffset,
      length_nameText_le pkt offset⟩
  · exact ⟨_, parseServiceResponses_eq pkt serviceType⟩
  · exact r.exists_runLoopRound localIp pkt ip

/-- A packet of one pointer to itself. -/
theorem reads_in_packet_sample :
    ∃ name stop, decodeDnsName [0xC0, 0x00] 0 = some (name, stop) ∧
      0 ≤ stop ∧ stop ≤ 2 ∧ name.length ≤ 22 :=
  (reads_in_packet [0xC0, 0x00]).1 0 (by decide)

end Llamaste
