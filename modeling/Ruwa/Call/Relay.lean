/-
  File:      Ruwa/Call/Relay.lean
  Subject:   THE RELAY OF A CALL (`call.rs`): `parse_relay_data` and `get_media_relay_endpoint`.

  The addresses of one relay come one `<te2>` each and are merged into an endpoint; of an endpoint
  the transport dials the first IPv4 address. The selection therefore asks for the first IPv4
  address on the web port, not for any.

  * `endpoints_eq` -- an endpoint is what its first `<te2>` says, with the addresses of all;
  * `getPrimaryIpv4Address_endpointOf` -- the address that is dialed is that of its first `<te2>`
    with an IPv4 address;
  * **`findsWebPort_iff`** -- an endpoint on the web port is found exactly when there is none, or
    one whose first IPv4 address is there.
-/
import Ruwa.Library.Grouping
import Ruwa.Library.Text
import Ruwa.Protocol.Binary

namespace Ruwa.Call

open Ruwa.Library
open Ruwa.Protocol.Binary

/-! ## 1. The block -/

def WEB_CLIENT_RELAY_PORT : UInt16 := 3480
def MAX_RELAY_TOKENS : Nat := 64
def HBH_KEY_LEN : Nat := 30

structure RelayAddress where
  protocol : UInt8
  ipv4 : Option String
  ipv6 : Option String
  port : UInt16
  deriving Repr, DecidableEq

structure RelayEndpoint where
  relayId : UInt32
  relayName : String
  tokenId : UInt32
  authTokenId : UInt32
  isFna : Bool
  addresses : List RelayAddress
  c2rRttMs : Option UInt32
  deriving Repr, DecidableEq

structure RelayData where
  hbhKey : Option Bytes
  relayKey : Option Bytes
  /-- The content of `<key>` as it stands. -/
  relayKeyAscii : Option Bytes
  warpMiTagLen : Option UInt32
  uuid : Option String
  relayTokens : List Bytes
  authTokens : List Bytes
  endpoints : List RelayEndpoint

def children (node : Node) (tag : String) : List Node :=
  match node.content with
  | .nodes ns => ns.filter fun c => decide (c.tag = tag)
  | _ => []

def child (node : Node) (tag : String) : Option Node :=
  match node.content with
  | .nodes ns => ns.find? fun c => decide (c.tag = tag)
  | _ => none

def nodeBytes (node : Node) : Option Bytes :=
  match node.content with
  | .bytes b => some b
  | _ => none

/-- `s.parse::<u32>()` -/
def parseU32 (s : List Char) : Option UInt32 := (Text.parseUint (2 ^ 32) s).map UInt32.ofNat

section Keys

-- the base64 decoder
variable (base64 : Bytes → Option Bytes)

def looksLikeBase64 (txt : String) : Bool :=
  4 ≤ (utf8 txt).length && txt.toList.all fun c => c.isAlphanum || c = '+' || c = '/' || c = '='

def tryDecodeBase64 (bytes : Bytes) : Option Bytes := do
  let txt ← ofUtf8? bytes
  if looksLikeBase64 txt then base64 (utf8 txt) else none

/-- The key may be encoded twice. -/
def decodeHbhKey (bytes : Bytes) : Option Bytes :=
  if bytes.isEmpty then none
  else
    let decoded := (tryDecodeBase64 base64 bytes).getD bytes
    let unwrapped :=
      if decoded.length ≠ HBH_KEY_LEN then
        ((tryDecodeBase64 base64 decoded).filter fun inner =>
          decide (inner.length = HBH_KEY_LEN)).getD decoded
      else decoded
    if unwrapped.length = HBH_KEY_LEN then some unwrapped else none

def decodeRelayKeyContent (bytes : Bytes) : Bytes := (tryDecodeBase64 base64 bytes).getD bytes

end Keys

/-! ## 2. Tokens and addresses -/

/-- A token at its id; the ids below it that no token has stay empty. -/
def placeToken (tokens : List Bytes) (node : Node) : List Bytes :=
  match nodeBytes node with
  | none => tokens
  | some bytes =>
      let id := ((node.attrs.get? "id").bind fun s => Text.parseUint (2 ^ 64) s.toList).getD
        tokens.length
      if MAX_RELAY_TOKENS ≤ id then tokens
      else (tokens ++ List.replicate (id + 1 - tokens.length) []).set id bytes

def parseIndexedTokens (relay : Node) (tag : String) : List Bytes :=
  (children relay tag).foldl placeToken []

def beU16 (hi lo : UInt8) : UInt16 := hi.toUInt16 <<< 8 ||| lo.toUInt16

/-- Sixteen bytes as eight groups in hexadecimal. -/
def ipv6Groups : Bytes → List String
  | hi :: lo :: rest => String.ofList (Nat.toDigits 16 (beU16 hi lo).toNat) :: ipv6Groups rest
  | _ => []

/-- Four or sixteen bytes and a port. -/
def parseTe2Address (bytes : Bytes) (protocol : UInt8) : Option RelayAddress :=
  match bytes with
  | [a, b, c, d, hi, lo] =>
      some { protocol, ipv6 := none, port := beU16 hi lo
             ipv4 := some (".".intercalate ([a, b, c, d].map fun n => toString n.toNat)) }
  | _ =>
      if bytes.length = 18 then
        some { protocol, ipv4 := none, port := beU16 (bytes.getD 16 0) (bytes.getD 17 0)
               ipv6 := some (":".intercalate (ipv6Groups (bytes.take 16))) }
      else none

/-- What one `<te2>` says. -/
structure Te2 where
  relayId : UInt32
  relayName : String
  tokenId : UInt32
  authTokenId : UInt32
  isFna : Bool
  c2rRttMs : Option UInt32
  address : RelayAddress
  deriving Repr, DecidableEq

def parseTe2 (te2 : Node) : Option Te2 := do
  let addrBytes ← nodeBytes te2
  let attrU32 := fun key => (te2.attrs.get? key).bind fun s => parseU32 s.toList
  let protocol := ((attrU32 "protocol").getD 0).toUInt8
  let address ← parseTe2Address addrBytes protocol
  return { relayId := (attrU32 "relay_id").getD 0
           relayName := (te2.attrs.get? "relay_name").getD ""
           tokenId := (attrU32 "token_id").getD 0
           authTokenId := (attrU32 "auth_token_id").getD 0
           isFna := decide (te2.attrs.get? "is_fna" = some "1")
           c2rRttMs := attrU32 "c2r_rtt"
           address }

namespace Te2

/-- `{relay_id}:{relay_name}` -/
def key (t : Te2) : String := s!"{t.relayId.toNat}:{t.relayName}"

/-- The endpoint that its first `<te2>` makes, before its address. -/
def opened (t : Te2) : RelayEndpoint where
  relayId := t.relayId
  relayName := t.relayName
  tokenId := t.tokenId
  authTokenId := t.authTokenId
  isFna := t.isFna
  addresses := []
  c2rRttMs := t.c2rRttMs

end Te2

def RelayEndpoint.merge (e : RelayEndpoint) (t : Te2) : RelayEndpoint :=
  { e with addresses := e.addresses ++ [t.address], c2rRttMs := t.c2rRttMs.or e.c2rRttMs }

/-! ## 3. The relay -/

/-- The `<te2>` children that have an address. -/
def te2s (relay : Node) : List Te2 := (children relay "te2").filterMap parseTe2

/-- The children are put into their endpoints one after the other. -/
def parseEndpoints (relay : Node) : List RelayEndpoint :=
  (Grouped.collect Te2.key Te2.opened RelayEndpoint.merge (te2s relay)).groups

def parseRelayData (base64 : Bytes → Option Bytes) (relay : Node) : RelayData :=
  let findBytes := fun tag => (child relay tag).bind nodeBytes
  let keyBytes := findBytes "key"
  { hbhKey := (findBytes "hbh_key").bind (decodeHbhKey base64)
    relayKey := keyBytes.map (decodeRelayKeyContent base64)
    relayKeyAscii := keyBytes
    warpMiTagLen := (((findBytes "warp_mi_tag_len").bind ofUtf8?).bind fun s =>
      parseU32 (Text.trim s.toList)).filter fun n => decide (0 < n)
    uuid := relay.attrs.get? "uuid"
    relayTokens := parseIndexedTokens relay "token"
    authTokens := parseIndexedTokens relay "auth_token"
    endpoints := parseEndpoints relay }

/-- The first IPv4 address, which the transport dials. -/
def getPrimaryIpv4Address (ep : RelayEndpoint) : Option (String × UInt16) :=
  ep.addresses.findSome? fun a => a.ipv4.map fun ip => (ip, a.port)

def isOutboundRelayCandidate (ep : RelayEndpoint) : Bool := !ep.isFna && ep.authTokenId != 0

/-- There is a token of this id, and it is not empty. -/
def holdsToken (tokens : List Bytes) (tokenId : UInt32) : Bool :=
  tokens[tokenId.toNat]?.any fun t => !t.isEmpty

namespace RelayData

def usable (rd : RelayData) (e : RelayEndpoint) : Bool :=
  (getPrimaryIpv4Address e).isSome && holdsToken rd.relayTokens e.tokenId

def onWebPort (e : RelayEndpoint) : Bool :=
  (getPrimaryIpv4Address e).any fun p => p.2 = WEB_CLIENT_RELAY_PORT

def pick (rd : RelayData) (usableOnly : Bool) : Option RelayEndpoint :=
  (rd.endpoints.find? fun e => onWebPort e && (!usableOnly || rd.usable e)).or <|
  (rd.endpoints.find? fun e => isOutboundRelayCandidate e && (!usableOnly || rd.usable e)).or <|
  (rd.endpoints.find? fun e => !e.isFna && (!usableOnly || rd.usable e)).or <|
  rd.endpoints.find? fun e => !usableOnly || rd.usable e

end RelayData

/-- At each tier a usable endpoint first. -/
def getMediaRelayEndpoint (rd : RelayData) : Option RelayEndpoint := (rd.pick true).or (rd.pick false)

/-! ## 4. Endpoints -/

/-- The endpoint of the relay that this `<te2>` is the first of. -/
def endpointOf (ts : List Te2) (t : Te2) : RelayEndpoint :=
  Grouped.whole Te2.key Te2.opened RelayEndpoint.merge ts t

/-- **One endpoint for each relay**, in the order of their first children. -/
theorem endpoints_eq (relay : Node) :
    parseEndpoints relay = (Grouped.heads Te2.key (te2s relay)).map (endpointOf (te2s relay)) :=
  Grouped.groups_collect _

/-- **It keeps what its first child says, and has the addresses of all.** -/
theorem endpointOf_fields (ts : List Te2) (t : Te2) :
    (endpointOf ts t).tokenId = t.tokenId ∧
      (endpointOf ts t).addresses =
        (ts.filter fun u => decide (u.key = t.key)).map Te2.address := by
  have hfold : ∀ (us : List Te2) (e : RelayEndpoint),
      (us.foldl RelayEndpoint.merge e).tokenId = e.tokenId ∧
        (us.foldl RelayEndpoint.merge e).addresses = e.addresses ++ us.map Te2.address := by
    intro us
    induction us with
    | nil => exact fun e => ⟨rfl, (List.append_nil _).symm⟩
    | cons u us ih =>
        intro e
        obtain ⟨htoken, haddresses⟩ := ih (e.merge u)
        refine ⟨htoken, ?_⟩
        rw [List.foldl_cons, haddresses, RelayEndpoint.merge, List.append_assoc]
        rfl
  exact hfold _ t.opened

/-- The first child of the relay with an IPv4 address. -/
def leading (ts : List Te2) (t : Te2) : Option Te2 :=
  ts.find? fun u => decide (u.key = t.key) && u.address.ipv4.isSome

/-- **The address that is dialed.** -/
theorem getPrimaryIpv4Address_endpointOf (ts : List Te2) (t : Te2) :
    getPrimaryIpv4Address (endpointOf ts t) =
      (leading ts t).bind fun u => u.address.ipv4.map fun ip => (ip, u.address.port) := by
  rw [getPrimaryIpv4Address, (endpointOf_fields ts t).2, leading]
  induction ts with
  | nil => rfl
  | cons u us ih =>
      by_cases hkey : u.key = t.key
      · rw [List.filter_cons_of_pos (by simpa using hkey), List.map_cons, List.findSome?_cons]
        cases hip : u.address.ipv4 with
        | none =>
            rw [List.find?_cons_of_neg (by simp [hip])]
            exact ih
        | some ip =>
            rw [List.find?_cons_of_pos (by simp [hkey, hip])]
            simp [hip]
      · rw [List.filter_cons_of_neg (by simpa using hkey),
          List.find?_cons_of_neg (by simp [hkey])]
        exact ih

/-! ## 5. The selection -/

variable {rd : RelayData}

theorem usable_of_onWebPort {e : RelayEndpoint} (h : RelayData.onWebPort e = true)
    (ht : holdsToken rd.relayTokens e.tokenId = true) : rd.usable e = true := by
  cases hp : getPrimaryIpv4Address e with
  | none =>
      rw [RelayData.onWebPort, hp] at h
      cases h
  | some p =>
      rw [RelayData.usable, hp, ht]
      rfl

theorem mem_of_pick {usableOnly : Bool} {e : RelayEndpoint} (h : rd.pick usableOnly = some e) :
    e ∈ rd.endpoints := by
  unfold RelayData.pick at h
  simp only [Option.or_eq_some_iff] at h
  rcases h with h | ⟨-, h | ⟨-, h | ⟨-, h⟩⟩⟩
  all_goals exact List.mem_of_find?_eq_some h

theorem mem_of_getMediaRelayEndpoint {e : RelayEndpoint} (h : getMediaRelayEndpoint rd = some e) :
    e ∈ rd.endpoints := by
  rcases Option.or_eq_some_iff.mp h with h | ⟨-, h⟩
  all_goals exact mem_of_pick h

/-- **A usable endpoint that is dialed on the web port goes before all others.** -/
theorem getMediaRelayEndpoint_onWebPort {e : RelayEndpoint} (he : e ∈ rd.endpoints)
    (hport : RelayData.onWebPort e = true) (ht : holdsToken rd.relayTokens e.tokenId = true) :
    ∃ e, getMediaRelayEndpoint rd = some e ∧ RelayData.onWebPort e = true ∧
      holdsToken rd.relayTokens e.tokenId = true := by
  have huse := usable_of_onWebPort hport ht
  cases hfind : rd.endpoints.find? fun e => RelayData.onWebPort e && (!true || rd.usable e) with
  | none => exact absurd (List.find?_eq_none.mp hfind e he) (by simp [hport, huse])
  | some e' =>
      have hgood : (RelayData.onWebPort e' && rd.usable e') = true := by
        simpa using List.find?_some hfind
      obtain ⟨hport', huse'⟩ := Bool.and_eq_true_iff.mp hgood
      refine ⟨e', ?_, hport', (Bool.and_eq_true_iff.mp huse').2⟩
      rw [getMediaRelayEndpoint, RelayData.pick, hfind]
      rfl

/-! ## 6. The web port -/

/-- The endpoint has an IPv4 address on the web port. -/
def RelayEndpoint.OffersWebPort (e : RelayEndpoint) : Prop :=
  ∃ a ∈ e.addresses, a.ipv4.isSome ∧ a.port = WEB_CLIENT_RELAY_PORT

/-- If there is an endpoint on the web port and a token for it, one is found, and dialed there. -/
def FindsWebPort (rd : RelayData) : Prop :=
  (∃ e ∈ rd.endpoints, holdsToken rd.relayTokens e.tokenId = true ∧ e.OffersWebPort) →
    ∃ e, getMediaRelayEndpoint rd = some e ∧ holdsToken rd.relayTokens e.tokenId = true ∧
      ∃ ip, getPrimaryIpv4Address e = some (ip, WEB_CLIENT_RELAY_PORT)

/-- The child has an IPv4 address on the web port, and there is a token for the first child of its
    relay. -/
def OnWebPort (ts : List Te2) (tokens : List Bytes) (t : Te2) : Prop :=
  (t.address.ipv4.isSome ∧ t.address.port = WEB_CLIENT_RELAY_PORT) ∧
    ∃ head, (ts.find? fun u => decide (u.key = t.key)) = some head ∧
      holdsToken tokens head.tokenId = true

/-- If there is a child on the web port, there is one before which its relay has no IPv4 address. -/
def WebPortLeads (relay : Node) : Prop :=
  (∃ t ∈ te2s relay, OnWebPort (te2s relay) (parseIndexedTokens relay "token") t) →
    ∃ t ∈ te2s relay, OnWebPort (te2s relay) (parseIndexedTokens relay "token") t ∧
      leading (te2s relay) t = some t

/-- An endpoint with a child of it: the child's relay is the endpoint's. -/
theorem endpointOf_head {ts : List Te2} {t head : Te2}
    (h : (ts.find? fun u => decide (u.key = t.key)) = some head) :
    head.key = t.key ∧ head ∈ Grouped.heads Te2.key ts := by
  have hkey : head.key = t.key := by simpa using List.find?_some h
  exact ⟨hkey, Grouped.mem_heads.mpr (by rw [hkey]; exact h)⟩

theorem offersWebPort_iff {ts : List Te2} {tokens : List Bytes} :
    (∃ e ∈ (Grouped.heads Te2.key ts).map (endpointOf ts),
      holdsToken tokens e.tokenId = true ∧ e.OffersWebPort) ↔
      ∃ t ∈ ts, OnWebPort ts tokens t := by
  constructor
  · rintro ⟨e, he, ht, a, ha, hon⟩
    obtain ⟨head, hhead, rfl⟩ := List.mem_map.mp he
    rw [(endpointOf_fields ts head).1] at ht
    rw [(endpointOf_fields ts head).2] at ha
    obtain ⟨t, hmem, rfl⟩ := List.mem_map.mp ha
    obtain ⟨hin, hkey⟩ := List.mem_filter.mp hmem
    refine ⟨t, hin, hon, head, ?_, ht⟩
    rw [of_decide_eq_true hkey]
    exact Grouped.mem_heads.mp hhead
  · rintro ⟨t, hin, hon, head, hfind, ht⟩
    obtain ⟨hkey, hhead⟩ := endpointOf_head hfind
    refine ⟨endpointOf ts head, List.mem_map_of_mem hhead, ?_, t.address, ?_, hon⟩
    · rw [(endpointOf_fields ts head).1]
      exact ht
    · rw [(endpointOf_fields ts head).2]
      exact List.mem_map_of_mem (List.mem_filter.mpr ⟨hin, decide_eq_true hkey.symm⟩)

theorem onWebPort_iff {e : RelayEndpoint} :
    RelayData.onWebPort e = true ↔
      ∃ ip, getPrimaryIpv4Address e = some (ip, WEB_CLIENT_RELAY_PORT) := by
  rw [RelayData.onWebPort]
  cases getPrimaryIpv4Address e with
  | none => simp
  | some p =>
      obtain ⟨ip, port⟩ := p
      simp

/-- What is dialed on the web port is the first IPv4 address of its relay. -/
theorem dialsWebPort_iff {ts : List Te2} {tokens : List Bytes} :
    (∃ e ∈ (Grouped.heads Te2.key ts).map (endpointOf ts),
      holdsToken tokens e.tokenId = true ∧ RelayData.onWebPort e = true) ↔
      ∃ t ∈ ts, OnWebPort ts tokens t ∧ leading ts t = some t := by
  -- The search for the first child depends on the key alone.
  have hleading : ∀ {t u : Te2}, t.key = u.key → leading ts t = leading ts u := by
    intro t u hkey
    rw [leading, leading, hkey]
  constructor
  · rintro ⟨e, he, ht, hport⟩
    obtain ⟨head, hhead, rfl⟩ := List.mem_map.mp he
    rw [(endpointOf_fields ts head).1] at ht
    obtain ⟨ip, hprimary⟩ := onWebPort_iff.mp hport
    rw [getPrimaryIpv4Address_endpointOf] at hprimary
    obtain ⟨t, hlead, haddr⟩ := Option.bind_eq_some_iff.mp hprimary
    obtain ⟨ip', hip, heq⟩ := Option.map_eq_some_iff.mp haddr
    have hkey : t.key = head.key := by
      have hsome := List.find?_some hlead
      exact of_decide_eq_true (Bool.and_eq_true_iff.mp hsome).1
    refine ⟨t, List.mem_of_find?_eq_some hlead, ⟨⟨by rw [hip]; rfl, (Prod.mk.inj heq).2⟩, head, ?_, ht⟩,
      (hleading hkey).trans hlead⟩
    rw [hkey]
    exact Grouped.mem_heads.mp hhead
  · rintro ⟨t, -, ⟨⟨hip, hport⟩, head, hfind, ht⟩, hlead⟩
    obtain ⟨hkey, hhead⟩ := endpointOf_head hfind
    obtain ⟨ip, hip⟩ := Option.isSome_iff_exists.mp hip
    refine ⟨endpointOf ts head, List.mem_map_of_mem hhead, ?_, onWebPort_iff.mpr ⟨ip, ?_⟩⟩
    · rw [(endpointOf_fields ts head).1]
      exact ht
    · rw [getPrimaryIpv4Address_endpointOf, hleading hkey, hlead, Option.bind_some, hip, hport]
      rfl

/-- **An endpoint on the web port is found exactly when** there is none, or one whose first IPv4
    address is on it. -/
theorem findsWebPort_iff (base64 : Bytes → Option Bytes) (relay : Node) :
    FindsWebPort (parseRelayData base64 relay) ↔ WebPortLeads relay := by
  have hoffers := @offersWebPort_iff (te2s relay) (parseIndexedTokens relay "token")
  have hdials := @dialsWebPort_iff (te2s relay) (parseIndexedTokens relay "token")
  rw [← endpoints_eq] at hoffers hdials
  refine imp_congr hoffers (Iff.trans ?_ hdials)
  constructor
  · rintro ⟨e, hget, ht, hport⟩
    exact ⟨e, mem_of_getMediaRelayEndpoint hget, ht, onWebPort_iff.mpr hport⟩
  · rintro ⟨e, he, ht, hport⟩
    obtain ⟨e', hget, hport', ht'⟩ :=
      @getMediaRelayEndpoint_onWebPort (parseRelayData base64 relay) e he hport ht
    exact ⟨e', hget, ht', onWebPort_iff.mp hport'⟩

/-! ## 7. A relay with two addresses -/

namespace RelaySample

def te2 (hi lo : UInt8) : Node :=
  ⟨"te2", SortedMap.empty.insert "relay_id" "5", .bytes [1, 2, 3, 4, hi, lo]⟩

/-- One relay, first on port 3478, then on the web port. -/
def relay : Node :=
  ⟨"relay", SortedMap.empty, .nodes
    [⟨"token", SortedMap.empty.insert "id" "0", .bytes [0xA0]⟩, te2 0x0D 0x96, te2 0x0D 0x98]⟩

/-- What is made of it. -/
def endpoint : RelayEndpoint where
  relayId := 5
  relayName := ""
  tokenId := 0
  authTokenId := 0
  isFna := false
  addresses := [⟨0, some "1.2.3.4", none, 3478⟩, ⟨0, some "1.2.3.4", none, 3480⟩]
  c2rRttMs := none

end RelaySample

/-- The relay is on the web port, and is dialed on the other one. -/
theorem web_port_passed_over :
    ¬∀ (base64 : Bytes → Option Bytes) (relay : Node), FindsWebPort (parseRelayData base64 relay) := by
  intro h
  have hendpoints : parseEndpoints RelaySample.relay = [RelaySample.endpoint] := by decide +kernel
  have htoken : holdsToken (parseIndexedTokens RelaySample.relay "token") 0 = true := by
    decide +kernel
  obtain ⟨e, hget, -, ip, hport⟩ := h (fun _ => none) RelaySample.relay
    ⟨RelaySample.endpoint, by rw [parseRelayData, hendpoints]; exact List.mem_singleton_self _, htoken,
      ⟨0, some "1.2.3.4", none, 3480⟩, List.mem_cons_of_mem _ List.mem_cons_self, rfl, rfl⟩
  have he : e ∈ [RelaySample.endpoint] := by
    rw [← hendpoints]
    exact mem_of_getMediaRelayEndpoint hget
  cases List.mem_singleton.mp he
  have hdialed : (getPrimaryIpv4Address RelaySample.endpoint).map Prod.snd = some 3478 := by decide
  rw [hport] at hdialed
  have hsame : WEB_CLIENT_RELAY_PORT = 3478 := Option.some.inj hdialed
  exact absurd hsame (by decide)

end Ruwa.Call
