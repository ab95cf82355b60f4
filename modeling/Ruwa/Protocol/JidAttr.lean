/-
  File:      Ruwa/Protocol/JidAttr.lean
  Subject:   WHOM AN ATTRIBUTE NAMES, before it is written and after it is read (`protocol.rs`,
             `write_attr_value`, `read_ad_jid`, `format_ad_jid`).

  An AD_JID token has an agent byte and no server: the reader takes the server from the agent. The
  writer takes the agent from the text where it stands there, whatever the server is.

  * `DeviceJid` -- `user[.agent][:device]@server` as it may be written, leading zeros included;
  * `identity_text` -- its user, device and server can be read from the text again;
  * `adJid_fields`, `adJid_written` -- which token is written for it;
  * **`keeps_identity_iff`** -- what comes back names the same device of the same server, exactly
    when the agent in the text, if there is one, is that of the server.
-/
import Ruwa.Protocol.BinaryRoundTrip

namespace Ruwa.Protocol.Binary

open Ruwa.Library
open Ruwa.Library.Reader

/-! ## 1. The texts -/

/-- A decimal number that fits in a byte. -/
structure DecimalByte where
  digits : List Char
  value : UInt8
  isDigit : ∀ c ∈ digits, c.isDigit = true
  parses : Text.parseU8 digits = some value

def DecimalByte.ofValue (value : UInt8) : DecimalByte :=
  ⟨Text.decimal value.toNat, value, fun _ => Text.mem_decimal, Text.parseU8_decimal value⟩

/-- The servers whose devices have JIDs of their own. -/
def DEVICE_SERVERS : List String := ["s.whatsapp.net", "lid", "hosted", "hosted.lid"]

/-- `user[.agent][:device]@server`. -/
structure DeviceJid where
  user : List Char
  agent : Option DecimalByte
  device : Option DecimalByte
  server : String
  user_digits : ∀ c ∈ user, c.isDigit = true
  server_mem : server ∈ DEVICE_SERVERS

namespace DeviceJid

variable (j : DeviceJid)

def agentNumber : Option UInt8 := j.agent.map DecimalByte.value

/-- Without a device the JID is that of device 0. -/
def deviceNumber : UInt8 := (j.device.map DecimalByte.value).getD 0

/-- A number behind its mark. -/
def marked (mark : Char) : Option DecimalByte → List Char
  | none => []
  | some n => mark :: n.digits

def head : List Char := j.user ++ marked '.' j.agent

def left : List Char := j.head ++ marked ':' j.device

def text : String := String.ofList (j.left ++ '@' :: j.server.toList)

/-- **The condition**: an agent in the text is that of the server; or nothing is made of it, since
    there is no user, or nothing to write but zeros. -/
def Kept : Prop :=
  ∀ agent, j.agentNumber = some agent →
    j.user = [] ∨ (agent = 0 ∧ j.deviceNumber = 0) ∨ agentServer agent = j.server

end DeviceJid

/-- The user, the device and the server of a JID. -/
def identity (v : String) : Option (List Char × UInt8 × String) :=
  match Text.rsplitOnce '@' v.toList with
  | none => none
  | some (left, server) =>
      let (head, device) := headDevice left
      device.map fun device => ((userDotAgent head).1, device, String.ofList server)

/-- An attribute value, read from these bytes as `read_node_inner` reads it. -/
def decodeAttrValue (data : Bytes) : Option String :=
  match (readValue (data.length + 1) true).run ⟨data, 0⟩ with
  | .ok (.str s, _) => some s
  | .ok (.none, _) => some ""
  | .ok (.bytes b, _) => ofUtf8? b
  | _ => none

/-! ## 2. What the text says -/

namespace DeviceJid

variable {j : DeviceJid}

/-- A separator is neither in the user nor in a number. -/
theorem not_mem_digits {cs : List Char} {c : Char} (h : ∀ c ∈ cs, c.isDigit = true)
    (hc : c.isDigit = false) : c ∉ cs := by
  intro hmem
  rw [h c hmem] at hc
  cases hc

theorem not_mem_marked {mark c : Char} (n : Option DecimalByte) (hc : c.isDigit = false)
    (hne : c ≠ mark) : c ∉ marked mark n := by
  cases n with
  | none => exact List.not_mem_nil
  | some n =>
      intro hmem
      rcases List.mem_cons.mp hmem with heq | hdigit
      · exact hne heq
      · exact not_mem_digits n.isDigit hc hdigit

theorem not_mem_head {c : Char} (hc : c.isDigit = false) (hdot : c ≠ '.') : c ∉ j.head := by
  intro hmem
  rcases List.mem_append.mp hmem with huser | hagent
  · exact not_mem_digits j.user_digits hc huser
  · exact not_mem_marked j.agent hc hdot hagent

theorem not_mem_left {c : Char} (hc : c.isDigit = false) (hdot : c ≠ '.') (hcolon : c ≠ ':') :
    c ∉ j.left := by
  intro hmem
  rcases List.mem_append.mp hmem with hhead | hdevice
  · exact not_mem_head hc hdot hhead
  · exact not_mem_marked j.device hc hcolon hdevice

theorem userDotAgent_head : userDotAgent j.head = (j.user, j.agentNumber) := by
  have huser : '.' ∉ j.user := not_mem_digits j.user_digits (by decide)
  unfold head agentNumber
  cases j.agent with
  | none =>
      rw [marked, List.append_nil, userDotAgent_of_none huser]
      rfl
  | some a =>
      rw [marked, userDotAgent_of_some huser, a.parses]
      rfl

theorem headDevice_left : headDevice j.left = (j.head, some j.deviceNumber) := by
  have hhead : ':' ∉ j.head := not_mem_head (by decide) (by decide)
  unfold left deviceNumber
  cases j.device with
  | none =>
      rw [marked, List.append_nil, headDevice_of_none hhead]
      rfl
  | some d =>
      rw [marked, headDevice_of_some (not_mem_digits d.isDigit (by decide)), d.parses]
      rfl

theorem rsplit_text : Text.rsplitOnce '@' j.text.toList = some (j.left, j.server.toList) := by
  have hserver : ∀ server ∈ DEVICE_SERVERS, '@' ∉ server.toList := by decide
  unfold text
  rw [String.toList_ofList]
  exact Text.rsplitOnce_eq_some.mpr ⟨rfl, hserver _ j.server_mem⟩

/-- **The text says whom the JID names.** -/
theorem identity_text : identity j.text = some (j.user, j.deviceNumber, j.server) := by
  unfold identity
  rw [rsplit_text]
  dsimp only
  rw [headDevice_left]
  dsimp only
  rw [userDotAgent_head, String.ofList_toList]
  rfl

end DeviceJid

theorem agentServer_mem (agent : UInt8) : agentServer agent ∈ DEVICE_SERVERS := by
  unfold agentServer
  split
  · decide
  · split
    · decide
    · decide

/-- What the reader makes of the three fields is such a text. -/
theorem identity_formatAdJid {user : List Char} (huser : ∀ c ∈ user, c.isDigit = true)
    (agent device : UInt8) :
    identity (formatAdJid (String.ofList user) agent device) =
      some (user, device, agentServer agent) := by
  let number (n : UInt8) : Option DecimalByte := if n = 0 then none else some (.ofValue n)
  have hmarked : ∀ (mark : Char) (n : UInt8),
      DeviceJid.marked mark (number n) = if n = 0 then [] else mark :: Text.decimal n.toNat := by
    intro mark n
    by_cases hn : n = 0
    · rw [if_pos hn]
      show DeviceJid.marked mark (if n = 0 then none else some (.ofValue n)) = []
      rw [if_pos hn]
      rfl
    · rw [if_neg hn]
      show DeviceJid.marked mark (if n = 0 then none else some (.ofValue n)) = _
      rw [if_neg hn]
      rfl
  let j : DeviceJid := ⟨user, number agent, number device, agentServer agent, huser,
    agentServer_mem agent⟩
  have htext : formatAdJid (String.ofList user) agent device = j.text := by
    apply String.toList_inj.mp
    rw [toList_formatAdJid, DeviceJid.text, String.toList_ofList, String.toList_ofList,
      DeviceJid.left, DeviceJid.head, hmarked, hmarked]
    rfl
  have hdevice : j.deviceNumber = device := by
    show ((if device = 0 then none else some (DecimalByte.ofValue device)).map
      DecimalByte.value).getD 0 = device
    by_cases hd : device = 0
    · rw [if_pos hd, hd]
      rfl
    · rw [if_neg hd]
      rfl
  rw [htext, DeviceJid.identity_text, hdevice]

/-! ## 3. What is written -/

namespace DeviceJid

variable {j : DeviceJid}

/-- The fields of an AD_JID, when there is something to put into one. -/
theorem adJidParts_left : adJidParts j.left j.server =
    match serverAgent j.server j.agentNumber with
    | some a =>
        if j.user ≠ [] ∧ (j.deviceNumber > 0 ∨ j.agentNumber.getD a > 0) then
          some (j.agentNumber.getD a, j.deviceNumber, String.ofList j.user)
        else none
    | none => none := by
  unfold adJidParts
  rw [headDevice_left]
  dsimp only
  rw [userDotAgent_head]
  cases serverAgent j.server j.agentNumber with
  | none => rfl
  | some a => rfl

/-- **An AD_JID that is written**: its agent is that of the text, or of the server. -/
theorem adJid_fields {agent device : UInt8} {user : String}
    (h : attrShape j.text = .adJid agent device user) :
    user = String.ofList j.user ∧ device = j.deviceNumber ∧ j.user ≠ [] ∧
      ¬(agent = 0 ∧ device = 0) ∧
      (j.agentNumber = some agent ∨ j.agentNumber = none ∧ agentServer agent = j.server) := by
  unfold attrShape at h
  rw [rsplit_text] at h
  dsimp only at h
  rw [String.ofList_toList] at h
  split at h
  · cases h
  · split at h
    · split at h
      · cases h
      · rw [adJidParts_left] at h
        rcases hserver : serverAgent j.server j.agentNumber with _ | a
        · rw [hserver] at h
          cases h
        · rw [hserver] at h
          dsimp only at h
          by_cases hsome : j.user ≠ [] ∧ (j.deviceNumber > 0 ∨ j.agentNumber.getD a > 0)
          · rw [if_pos hsome] at h
            cases h
            refine ⟨rfl, rfl, hsome.1, ?_, ?_⟩
            · rintro ⟨hagent, hdevice⟩
              rw [hagent, hdevice] at hsome
              exact hsome.2.elim (UInt8.lt_irrefl 0) (UInt8.lt_irrefl 0)
            · cases hnumber : j.agentNumber with
              | some agent => exact Or.inl rfl
              | none =>
                  rw [hnumber] at hserver
                  refine Or.inr ⟨rfl, ?_⟩
                  show agentServer a = j.server
                  unfold serverAgent at hserver
                  split at hserver
                  · rename_i hs
                    cases hserver
                    exact hs.symm
                  · split at hserver
                    · rename_i hs
                      cases hserver
                      exact hs.symm
                    · split at hserver
                      · cases hserver
                      · cases hserver
          · rw [if_neg hsome] at h
            cases h
    · cases h

/-- **An agent in the text is written**, unless it is 0 and so is the device. -/
theorem adJid_written {agent : UInt8} (hagent : j.agentNumber = some agent) (huser : j.user ≠ [])
    (hpos : ¬(agent = 0 ∧ j.deviceNumber = 0)) :
    attrShape j.text = .adJid agent j.deviceNumber (String.ofList j.user) := by
  have hleft : j.left ≠ [] := fun hnil =>
    huser (List.append_eq_nil_iff.mp (List.append_eq_nil_iff.mp hnil).1).1
  have hat : '@' ∉ j.left := not_mem_left (by decide) (by decide) (by decide)
  have hdot : '.' ∈ j.left := by
    obtain ⟨n, hn, -⟩ := Option.map_eq_some_iff.mp hagent
    refine List.mem_append_left _ (List.mem_append_right _ ?_)
    rw [hn]
    exact List.mem_cons_self
  have hparts : adJidParts j.left j.server =
      some (agent, j.deviceNumber, String.ofList j.user) := by
    have hserver : ∃ a, serverAgent j.server (some agent) = some a := by
      unfold serverAgent
      have hmem := j.server_mem
      by_cases hpn : j.server = "s.whatsapp.net"
      · exact ⟨0, if_pos hpn⟩
      · rw [if_neg hpn]
        by_cases hlid : j.server = "lid"
        · exact ⟨1, if_pos hlid⟩
        · rw [if_neg hlid]
          refine ⟨agent, if_pos ?_⟩
          unfold DEVICE_SERVERS at hmem
          simp only [List.mem_cons, List.not_mem_nil, or_false] at hmem
          exact (hmem.resolve_left hpn).resolve_left hlid
    obtain ⟨a, ha⟩ := hserver
    have hsome : j.user ≠ [] ∧ (j.deviceNumber > 0 ∨ agent > 0) := by
      refine ⟨huser, ?_⟩
      by_cases hdevice : j.deviceNumber = 0
      · exact Or.inr (UInt8.pos_iff_ne_zero.mpr fun h0 => hpos ⟨h0, hdevice⟩)
      · exact Or.inl (UInt8.pos_iff_ne_zero.mpr hdevice)
    rw [adJidParts_left, hagent, ha]
    exact if_pos hsome
  unfold attrShape
  rw [rsplit_text]
  dsimp only
  rw [String.ofList_toList, if_neg (fun h => hleft h.1), if_pos ⟨hleft, hat⟩,
    if_neg (fun h => h.2.2 hdot), hparts]

end DeviceJid

/-! ## 4. What comes back -/

/-- An attribute value takes at least one byte. -/
theorem ne_nil_of_writeAttrValue {v : String} {bs : Bytes} (h : writeAttrValue v = .ok bs) :
    bs ≠ [] := by
  unfold writeAttrValue at h
  split at h
  · obtain ⟨b, -, hbs⟩ := Result.bind_ok.mp h
    cases hbs
    exact List.cons_ne_nil _ _
  · obtain ⟨bu, -, h⟩ := Result.bind_ok.mp h
    obtain ⟨b, -, hbs⟩ := Result.bind_ok.mp h
    cases hbs
    exact List.cons_ne_nil _ _
  · obtain ⟨b, -, hbs⟩ := Result.bind_ok.mp h
    cases hbs
    exact List.cons_ne_nil _ _
  · exact List.length_pos_iff.mp (length_writeString h)

theorem decodeAttrValue_of_reads {bs : Bytes} {w : String}
    (h : Reads (readValue (bs.length + 1) true) bs (.str w)) : decodeAttrValue bs = some w := by
  have hrun := h [] []
  rw [List.nil_append, List.append_nil] at hrun
  unfold decodeAttrValue
  rw [show (⟨bs, 0⟩ : Cursor) = ⟨bs, ([] : Bytes).length⟩ from rfl, hrun]

/-- **Whom an attribute names.** For every such JID that is written, what is read back has the same
    user, device and server exactly when the condition holds. -/
theorem keeps_identity_iff (j : DeviceJid) (bs : Bytes) (h : writeAttrValue j.text = .ok bs) :
    (decodeAttrValue bs).bind identity = some (j.user, j.deviceNumber, j.server) ↔ j.Kept := by
  have hbs : bs ≠ [] := ne_nil_of_writeAttrValue h
  obtain ⟨fuel, hfuel⟩ : ∃ fuel, bs.length = fuel + 1 :=
    Nat.exists_eq_succ_of_ne_zero fun h0 => hbs (List.length_eq_zero_iff.mp h0)
  have hr : ReadsStrings (readValue bs.length true) := hfuel ▸ readsStrings_fuel fuel
  by_cases hshape : ∃ agent device user, attrShape j.text = .adJid agent device user
  · obtain ⟨agent, device, user, hshape⟩ := hshape
    obtain ⟨rfl, rfl, huser, hpos, hagent⟩ := DeviceJid.adJid_fields hshape
    -- The bytes say the agent, and the reader takes the server from it.
    have hread : Reads (readValue (bs.length + 1) true) bs
        (.str (formatAdJid (String.ofList j.user) agent j.deviceNumber)) := by
      unfold writeAttrValue at h
      rw [hshape] at h
      obtain ⟨b, hb, hbs⟩ := Result.bind_ok.mp h
      cases hbs
      exact reads_tagged ((reads_adJid hr hb).map rfl)
    rw [decodeAttrValue_of_reads hread, Option.bind_some, identity_formatAdJid j.user_digits]
    have hserver : (some (j.user, j.deviceNumber, agentServer agent) =
        some (j.user, j.deviceNumber, j.server)) ↔ agentServer agent = j.server := by
      simp only [Option.some.injEq, Prod.mk.injEq, true_and]
    rw [hserver]
    unfold DeviceJid.Kept
    rcases hagent with hsome | ⟨hnone, hsame⟩
    · constructor
      · intro hsame a ha
        cases hsome.symm.trans ha
        exact Or.inr (Or.inr hsame)
      · intro hkept
        exact ((hkept agent hsome).resolve_left huser).resolve_left hpos
    · exact iff_of_true hsame fun a ha => nomatch hnone.symm.trans ha
  · -- No AD_JID: the text comes back as it was.
    have hread : Reads (readValue (bs.length + 1) true) bs (.str j.text) :=
      reads_writeAttrValue hr
        (Or.inl fun agent device user hs => hshape ⟨agent, device, user, hs⟩) h
    rw [decodeAttrValue_of_reads hread, Option.bind_some, DeviceJid.identity_text]
    refine iff_of_true rfl fun agent hagent => ?_
    by_contra hnot
    obtain ⟨huser, hnot⟩ := not_or.mp hnot
    exact hshape ⟨agent, _, _, DeviceJid.adJid_written hagent huser (not_or.mp hnot).1⟩

/-- A device that is named without an agent. -/
def lidDevice : DeviceJid :=
  ⟨"1961".toList, none, some (.ofValue 56), "lid",
    List.all_eq_true.mp (by decide), by decide⟩

theorem keeps_lidDevice :
    (decodeAttrValue [247, 1, 56, 239, 255]).bind identity =
      some (lidDevice.user, lidDevice.deviceNumber, lidDevice.server) ↔ lidDevice.Kept :=
  keeps_identity_iff lidDevice _ (by decide +kernel)

/-- A device of a hosted account behind a LID, and one whose agent is another server's. -/
def hostedLid : DeviceJid :=
  ⟨"1961".toList, some (.ofValue 129), some (.ofValue 99), "hosted.lid",
    List.all_eq_true.mp (by decide), by decide⟩
def strayAgent : DeviceJid :=
  ⟨"1961".toList, some (.ofValue 0), some (.ofValue 5), "lid",
    List.all_eq_true.mp (by decide), by decide⟩

/-- **Another server comes back.** -/
theorem server_lost :
    hostedLid.text = "1961.129:99@hosted.lid" ∧
    writeAttrValue hostedLid.text = .ok [247, 129, 99, 239, 255] ∧
    decodeAttrValue [247, 129, 99, 239, 255] = some "1961.129:99@hosted" ∧
    strayAgent.text = "1961.0:5@lid" ∧
    writeAttrValue strayAgent.text = .ok [247, 0, 5, 239, 255] ∧
    decodeAttrValue [247, 0, 5, 239, 255] = some "1961:5@s.whatsapp.net" := by
  decide +kernel

end Ruwa.Protocol.Binary
