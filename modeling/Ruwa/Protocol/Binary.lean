/-
  File:      Ruwa/Protocol/Binary.lean
  Subject:   THE BINARY NODE CODEC (`protocol.rs`, module `binary`): the encoder and the decoder as
             the source computes them.

  A node is `(tag, attrs, content)`. The encoder writes a list-size header, the tag, the
  attributes that are not empty, and the content. Strings go out as dictionary tokens, packed
  nibbles or hex digits, or raw bytes; attribute values that look like a JID go out as one of two
  JID tokens. The decoder finds out from the first byte which of these it has.

  The encoder is written with its OUTPUT as the result: `write_node` appends to a buffer, here the
  appended bytes are returned. The decoder keeps the cursor of the source, so its errors quote the
  same positions; its recursion is on a fuel that counts the bytes left (see section 5).

  What the two have to do with each other is proved in `Protocol/BinaryRoundTrip.lean`.
-/
import Ruwa.Library.Reader
import Ruwa.Library.Text
import Ruwa.Library.SortedMap
import Ruwa.Protocol.Tokens
import Mathlib.Data.String.Basic

namespace Ruwa.Protocol.Binary

open Ruwa.Library

/-! ## 1. Nodes -/

/-- Attributes, in key order. -/
abbrev Attrs := SortedMap String String

/-- What a node carries: nothing, raw bytes, or child nodes. -/
inductive Content (α : Type)
  | none
  | bytes (b : Bytes)
  | nodes (ns : List α)

inductive Node
  | mk (tag : String) (attrs : Attrs) (content : Content Node)

namespace Node

def tag : Node → String
  | mk tag _ _ => tag

def attrs : Node → Attrs
  | mk _ attrs _ => attrs

def content : Node → Content Node
  | mk _ _ content => content

/-- A node with neither attributes nor content. -/
def new (tag : String) : Node := ⟨tag, SortedMap.empty, .none⟩

end Node

/-! ## 2. Wire constants and errors -/

def LIST_EMPTY : UInt8 := 0
def DICT_0 : UInt8 := 236
def DICT_3 : UInt8 := 239
def INTEROP_JID : UInt8 := 245
def FB_JID : UInt8 := 246
def AD_JID : UInt8 := 247
def LIST_8 : UInt8 := 248
def LIST_16 : UInt8 := 249
def JID_PAIR : UInt8 := 250
def HEX_8 : UInt8 := 251
def BINARY_8 : UInt8 := 252
def BINARY_20 : UInt8 := 253
def BINARY_32 : UInt8 := 254
def NIBBLE_8 : UInt8 := 255
def PACKED_MAX : Nat := 127

inductive DecodeError
  | eof (pos need : Nat)
  | invalidToken (pos : Nat) (byte : UInt8)
  | invalidListSize (pos : Nat) (tag : UInt8)
  | nonStringKey (pos : Nat)
  | invalidNode
  | invalidNibble (value : UInt8)
  | invalidHex (value : UInt8)
  | unsupported (what : String)
  deriving Repr, DecidableEq

inductive EncodeError
  | tooLarge (len : Nat)
  | packedTooLong (len : Nat)
  deriving Repr, DecidableEq

/-! ## 3. Token lookup -/

/-- A map filled by inserting `entries` in order, looked up at `key`: the last entry counts. -/
def lookupLast {α : Type} (entries : List (String × α)) (key : String) : Option α :=
  (entries.reverse.find? fun e => e.1 == key).map Prod.snd

/-- The non-empty single-byte tokens with their index. -/
def singleByteEntries : List (String × UInt8) :=
  (SINGLE_BYTE_TOKENS.zipIdx.filter fun e => !e.1.isEmpty).map fun e => (e.1, UInt8.ofNat e.2)

/-- The double-byte tokens with their dictionary and their index in it. -/
def doubleByteEntries : List (String × (UInt8 × UInt8)) :=
  DOUBLE_BYTE_TOKENS.zipIdx.flatMap fun d =>
    d.1.zipIdx.map fun e => (e.1, (UInt8.ofNat d.2, UInt8.ofNat e.2))

def singleByteIndex (tok : String) : Option UInt8 := lookupLast singleByteEntries tok

def doubleByteIndex (tok : String) : Option (UInt8 × UInt8) := lookupLast doubleByteEntries tok

/-! ## 4. The encoder -/

def writeListStart (size : Nat) : Except EncodeError Bytes :=
  if size = 0 then .ok [LIST_EMPTY]
  else if size < 256 then .ok [LIST_8, UInt8.ofNat size]
  else if size < 1 <<< 16 then .ok [LIST_16, UInt8.ofNat (size >>> 8), UInt8.ofNat size]
  else .error (.tooLarge size)

def writeByteLength (len : Nat) : Except EncodeError Bytes :=
  if len < 256 then .ok [BINARY_8, UInt8.ofNat len]
  else if len < 1 <<< 20 then
    .ok [BINARY_20, UInt8.ofNat (len >>> 16 &&& 0x0F), UInt8.ofNat (len >>> 8), UInt8.ofNat len]
  else if len < 2 ^ 31 - 1 then .ok (BINARY_32 :: toBE 4 len)
  else .error (.tooLarge len)

def writeBytes (value : Bytes) : Except EncodeError Bytes := do
  return (← writeByteLength value.length) ++ value

def isAsciiDigit (c : UInt8) : Bool := 0x30 ≤ c && c ≤ 0x39

/-- Digits, `-` and `.`, at most 127 of them. -/
def validateNibble (s : String) : Bool :=
  let bytes := utf8 s
  if bytes.length > PACKED_MAX || bytes.isEmpty then false
  else bytes.all fun c => isAsciiDigit c || c == 0x2D || c == 0x2E

/-- Digits and `A` to `F`, at most 127 of them. -/
def validateHex (s : String) : Bool :=
  let bytes := utf8 s
  if bytes.length > PACKED_MAX || bytes.isEmpty then false
  else bytes.all fun c => isAsciiDigit c || (0x41 ≤ c && c ≤ 0x46)

/-- The last arm is `unreachable!` in the source: `validate_nibble` filters what it would see. -/
def packNibble (c : UInt8) : UInt8 :=
  if c = 0x2D then 10
  else if c = 0x2E then 11
  else if c = 0 then 15
  else if isAsciiDigit c then c - 0x30
  else 0

/-- The last arm is `unreachable!` in the source: `validate_hex` filters what it would see. -/
def packHex (c : UInt8) : UInt8 :=
  if isAsciiDigit c then c - 0x30
  else if 0x41 ≤ c ∧ c ≤ 0x46 then 10 + c - 0x41
  else if c = 0 then 15
  else 0

/-- Two characters a byte; the last one of an odd number is padded. -/
def packPairs (pack : UInt8 → UInt8) : Bytes → Bytes
  | a :: b :: rest => (pack a <<< 4 ||| pack b) :: packPairs pack rest
  | [a] => [pack a <<< 4 ||| pack 0]
  | [] => []

def writePacked (s : String) (ty : UInt8) : Except EncodeError Bytes :=
  let bytes := utf8 s
  if bytes.length > PACKED_MAX then .error (.packedTooLong bytes.length)
  else
    let halfLen := UInt8.ofNat ((bytes.length + 1) / 2)
    let header := if bytes.length % 2 = 1 then halfLen ||| 0x80 else halfLen
    let pack := if ty = NIBBLE_8 then packNibble else packHex
    .ok (ty :: header :: packPairs pack bytes)

/-- The shortest of the five forms that fits, in this order. -/
def writeString (s : String) : Except EncodeError Bytes :=
  match singleByteIndex s with
  | some idx => .ok [idx]
  | none =>
      match doubleByteIndex s with
      | some (di, idx) => .ok [DICT_0 + di, idx]
      | none =>
          if validateNibble s then writePacked s NIBBLE_8
          else if validateHex s then writePacked s HEX_8
          else writeBytes (utf8 s)

/-- Servers that make `user@server` a binary JID rather than a literal string. -/
def KNOWN_JID_SERVERS : List String :=
  ["s.whatsapp.net", "c.us", "g.us", "lid", "broadcast", "newsletter", "call"]

/-- Which of the four ways an attribute value is written. -/
inductive AttrShape
  | server (server : String)
  | pair (user server : String)
  | adJid (agent device : UInt8) (user : String)
  | plain
  deriving Repr, DecidableEq

/-- The device behind the last colon; 0 without a colon, none when it is not a byte. -/
def headDevice (left : List Char) : List Char × Option UInt8 :=
  match Text.rsplitOnce ':' left with
  | some (h, d) => (h, Text.parseU8 d)
  | none => (left, some 0)

/-- The agent behind the first dot. -/
def userDotAgent (head : List Char) : List Char × Option UInt8 :=
  match Text.splitOnce '.' head with
  | some (u, a) => (u, Text.parseU8 a)
  | none => (head, none)

/-- The agent byte a server stands for; `hosted` carries its own in the string. -/
def serverAgent (server : String) (dotAgent : Option UInt8) : Option UInt8 :=
  if server = "s.whatsapp.net" then some 0
  else if server = "lid" then some 1
  else if server = "hosted" ∨ server = "hosted.lid" then dotAgent
  else none

/-- `user[.agent][:device]` in front of a server that has an agent byte: what goes into an
    AD_JID token, if anything does. -/
def adJidParts (left : List Char) (server : String) : Option (UInt8 × UInt8 × String) :=
  let (head, device) := headDevice left
  let (user, dotAgent) := userDotAgent head
  match serverAgent server dotAgent, device with
  | some serverAgent, some device =>
      let agent := dotAgent.getD serverAgent
      if user ≠ [] ∧ (device > 0 ∨ agent > 0) then some (agent, device, String.ofList user)
      else none
  | _, _ => none

/-- How `write_attr_value` classifies a value. -/
def attrShape (v : String) : AttrShape :=
  match Text.rsplitOnce '@' v.toList with
  | none => .plain
  | some (left, serverChars) =>
      let server := String.ofList serverChars
      if left = [] ∧ server ∈ KNOWN_JID_SERVERS then
        .server server
      else if left ≠ [] ∧ '@' ∉ left then
        if server ∈ KNOWN_JID_SERVERS ∧ ':' ∉ left ∧ '.' ∉ left then
          .pair (String.ofList left) server
        else
          match adJidParts left server with
          | some (agent, device, user) => .adJid agent device user
          | none => .plain
      else .plain

def writeAttrValue (v : String) : Except EncodeError Bytes :=
  match attrShape v with
  | .server server => do return [JID_PAIR, LIST_EMPTY] ++ (← writeString server)
  | .pair user server => do return [JID_PAIR] ++ (← writeString user) ++ (← writeString server)
  | .adJid agent device user => do return [AD_JID, agent, device] ++ (← writeString user)
  | .plain => writeString v

/-- The attributes with a non-empty value, in key order. -/
def writeAttrs : List (String × String) → Except EncodeError Bytes
  | [] => .ok []
  | (k, v) :: rest =>
      if v.isEmpty then writeAttrs rest
      else do return (← writeString k) ++ (← writeAttrValue v) ++ (← writeAttrs rest)

def hasContent : Content Node → Bool
  | .none => false
  | _ => true

/-- `2 * attr_count + 1 + has_content`, empty attribute values not counted. -/
def listSize (attrs : Attrs) (content : Content Node) : Nat :=
  2 * (attrs.entries.filter fun e => !e.2.isEmpty).length + 1 + (hasContent content).toNat

mutual

/-- A tag "0" is written as an empty list and nothing else. -/
def writeNode : Node → Except EncodeError Bytes
  | ⟨tag, attrs, content⟩ =>
      if tag = "0" then .ok [LIST_8, LIST_EMPTY]
      else do
        return (← writeListStart (listSize attrs content)) ++ (← writeString tag) ++
          (← writeAttrs attrs.entries) ++ (← writeContent content)

def writeContent : Content Node → Except EncodeError Bytes
  | .none => .ok []
  | .bytes b => writeBytes b
  | .nodes children => do
      return (← writeListStart children.length) ++ (← writeNodes children)

def writeNodes : List Node → Except EncodeError Bytes
  | [] => .ok []
  | c :: cs => do return (← writeNode c) ++ (← writeNodes cs)

end

/-- The wire bytes of a node, without the leading compression flag. -/
def encode (n : Node) : Except EncodeError Bytes := writeNode n

/-- The wire bytes behind the compression flag 0 (uncompressed). -/
def pack (n : Node) : Except EncodeError Bytes := do return 0 :: (← writeNode n)

/-! ## 5. The decoder -/

/-- What a tagged value turns out to be. -/
inductive DecodedValue
  | none
  | str (s : String)
  | bytes (b : Bytes)
  | nodes (ns : List Node)

abbrev Decoder := Reader DecodeError

def readByte : Decoder UInt8 := Reader.readByte .eof

def readIntBe (n : Nat) : Decoder Nat := Reader.readIntBe .eof n

def readInt20 : Decoder Nat := do
  let bs ← Reader.readRaw .eof 3
  return ((bs.getD 0 0).toNat &&& 0x0F) <<< 16 ||| (bs.getD 1 0).toNat <<< 8 ||| (bs.getD 2 0).toNat

def readRaw (n : Nat) : Decoder Bytes := Reader.readRaw .eof n

def unsupported {α : Type} (what : String) : Decoder α := Reader.fail fun _ => .unsupported what

def readListSize (tag : UInt8) : Decoder Nat :=
  if tag = LIST_EMPTY then pure 0
  else if tag = LIST_8 then readIntBe 1
  else if tag = LIST_16 then readIntBe 2
  else Reader.fail fun pos => .invalidListSize pos tag

def unpackByte (ty value : UInt8) : Except DecodeError UInt8 :=
  if ty = NIBBLE_8 then
    if value ≤ 9 then .ok (0x30 + value)
    else if value = 10 then .ok 0x2D
    else if value = 11 then .ok 0x2E
    else if value = 15 then .ok 0
    else .error (.invalidNibble value)
  else if ty = HEX_8 then
    if value ≤ 9 then .ok (0x30 + value)
    else if value ≤ 15 then .ok (0x41 + value - 10)
    else .error (.invalidHex value)
  else .error (.unsupported "unpack with non-packed tag")

/-- One packed byte: two characters. -/
def readPackedPair (ty : UInt8) : Decoder (UInt8 × UInt8) := do
  let b ← readByte
  let upper ← liftM (unpackByte ty (b >>> 4))
  let lower ← liftM (unpackByte ty (b &&& 0x0F))
  return (upper, lower)

def readPacked (ty : UInt8) : Decoder String := do
  let header ← readByte
  let pairs ← Reader.many (readPackedPair ty) (header &&& 0x7F).toNat
  let out := pairs.flatMap fun p => [p.1, p.2]
  let out := if header &&& 0x80 ≠ 0 ∧ out ≠ [] then out.dropLast else out
  match ofUtf8? out with
  | some s => return s
  | none => unsupported "packed bytes were not valid UTF-8"

def readBytesOrString (n : Nat) (asString : Bool) : Decoder DecodedValue := do
  let raw ← readRaw n
  if asString then
    match ofUtf8? raw with
    | some s => return .str s
    | none => unsupported "attribute value was not valid UTF-8"
  else
    return .bytes raw

/-- The double-byte token `(dict, i)`. -/
def doubleByteToken (dict i : Nat) : Option String :=
  DOUBLE_BYTE_TOKENS[dict]?.bind (·[i]?)

def formatAdJid (user : String) (agent device : UInt8) : String :=
  let server := if agent = 0 then "s.whatsapp.net" else if agent = 1 then "lid" else "hosted"
  let dot := if agent = 0 then [] else '.' :: Text.decimal agent.toNat
  let colon := if device = 0 then [] else ':' :: Text.decimal device.toNat
  String.ofList (user.toList ++ dot ++ colon ++ '@' :: server.toList)

section Jids

-- `readStr` is the nested `read_value(true)`
variable (readStr : Decoder DecodedValue)

def readJidPair : Decoder String := do
  let user ← readStr
  let server ← readStr
  match server with
  | .str server =>
      match user with
      | .none => return "@" ++ server
      | .str u => return u ++ "@" ++ server
      | _ => unsupported "JID user must be string|none"
  | _ => unsupported "JID server must be a string"

def readAdJid : Decoder String := do
  let agent ← readByte
  let device ← readByte
  match ← readStr with
  | .str user => return formatAdJid user agent device
  | _ => unsupported "AD JID user must be string"

def readFbJid : Decoder String := do
  match ← readStr with
  | .str user =>
      let device ← readIntBe 2
      match ← readStr with
      | .str server =>
          if device > 0 then
            return user ++ ":" ++ String.ofList (Text.decimal device) ++ "@" ++ server
          else
            return user ++ "@" ++ server
      | _ => unsupported "FB JID server must be string"
  | _ => unsupported "FB JID user must be string"

def readInteropJid : Decoder String := do
  match ← readStr with
  | .str user =>
      let device ← readIntBe 2
      let integrator ← readIntBe 2
      match ← readStr with
      | .str server =>
          return user ++ ":" ++ String.ofList (Text.decimal device) ++ "_" ++
            String.ofList (Text.decimal integrator) ++ "@" ++ server
      | _ => unsupported "Interop JID server must be string"
  | _ => unsupported "Interop JID user must be string"

end Jids

/-- What follows the first byte of a value. `readNode` and `readStr` are the nested reads. -/
def readTagged (readNode : Decoder Node) (readStr : Decoder DecodedValue) (asString : Bool)
    (tag : UInt8) : Decoder DecodedValue := do
  if tag = LIST_EMPTY then
    return .none
  else if tag = LIST_8 ∨ tag = LIST_16 then
    let size ← readListSize tag
    let nodes ← Reader.many readNode size
    return .nodes nodes
  else if tag = BINARY_8 then
    let n ← readIntBe 1
    readBytesOrString n asString
  else if tag = BINARY_20 then
    let n ← readInt20
    readBytesOrString n asString
  else if tag = BINARY_32 then
    let n ← readIntBe 4
    readBytesOrString n asString
  else if DICT_0 ≤ tag ∧ tag ≤ DICT_3 then
    let i ← readByte
    match doubleByteToken (tag - DICT_0).toNat i.toNat with
    | some s => return .str s
    | none => Reader.fail fun pos => .invalidToken pos tag
  else if tag = FB_JID then
    let s ← readFbJid readStr
    return .str s
  else if tag = INTEROP_JID then
    let s ← readInteropJid readStr
    return .str s
  else if tag = JID_PAIR then
    let s ← readJidPair readStr
    return .str s
  else if tag = AD_JID then
    let s ← readAdJid readStr
    return .str s
  else if tag = NIBBLE_8 ∨ tag = HEX_8 then
    let s ← readPacked tag
    return .str s
  else if 1 ≤ tag ∧ tag.toNat < SINGLE_BYTE_TOKENS.length then
    return .str (SINGLE_BYTE_TOKENS.getD tag.toNat "")
  else
    Reader.fail fun pos => .invalidToken pos tag

/-- A value, told apart by its first byte. -/
def readValueWith (readNode : Decoder Node) (readStr : Decoder DecodedValue) (asString : Bool) :
    Decoder DecodedValue := do
  let tag ← readByte
  readTagged readNode readStr asString tag

/-- `attr_count` key-value pairs, inserted as they come. -/
def readAttrs (readStr : Decoder DecodedValue) : Nat → Attrs → Decoder Attrs
  | 0, attrs => pure attrs
  | n + 1, attrs => do
      match ← readStr with
      | .str key =>
          match ← readStr with
          | .str val => readAttrs readStr n (attrs.insert key val)
          | .none => readAttrs readStr n (attrs.insert key "")
          | .bytes b =>
              match ofUtf8? b with
              | some val => readAttrs readStr n (attrs.insert key val)
              | none => unsupported "attr was non-UTF8 bytes"
          | .nodes _ => unsupported "attr value cannot be a node list"
      | _ => Reader.fail fun pos => .nonStringKey pos

def readNodeWith (readValue : Bool → Decoder DecodedValue) : Decoder Node := do
  let sizeTag ← readByte
  let listSize ← readListSize sizeTag
  match ← readValue true with
  | .str tag =>
      if listSize = 0 ∨ tag.isEmpty then
        Reader.fail fun _ => .invalidNode
      else
        let attrs ← readAttrs (readValue true) ((listSize - 1) >>> 1) SortedMap.empty
        if listSize % 2 = 1 then
          return ⟨tag, attrs, .none⟩
        else
          match ← readValue false with
          | .none => return ⟨tag, attrs, .none⟩
          | .bytes b => return ⟨tag, attrs, .bytes b⟩
          | .nodes ns => return ⟨tag, attrs, .nodes ns⟩
          | .str s => return ⟨tag, attrs, .bytes (utf8 s)⟩
  | _ => unsupported "node tag must be a string"

mutual

/-- `read_value`. The fuel is the number of bytes left: a nested call comes after at least one
    byte was read, and with no byte left the first `read_byte` fails. -/
def readValue : Nat → Bool → Decoder DecodedValue
  | 0, _ => Reader.fail fun pos => .eof pos 1
  | fuel + 1, asString => readValueWith (readNodeInner fuel) (readValue fuel true) asString

def readNodeInner : Nat → Decoder Node
  | 0 => Reader.fail fun pos => .eof pos 1
  | fuel + 1 => readNodeWith (readValue fuel)

end

/-- Decodes one node from the front of `data`; the cursor shows where it stopped. -/
def readNodeRequired (data : Bytes) : Except DecodeError (Node × Cursor) :=
  (readNodeInner data.length).run ⟨data, 0⟩

def decode (data : Bytes) : Except DecodeError Node := do
  let (node, _) ← readNodeRequired data
  return node

/-- Strips the compression flag, inflates when bit 1 is set (`inflate` is the zlib library), and
    decodes. -/
def unmarshal (inflate : Bytes → Option Bytes) (data : Bytes) : Except DecodeError Node :=
  match data with
  | [] => .error (.eof 0 1)
  | flag :: body =>
      if flag &&& 2 ≠ 0 then
        match inflate body with
        | some buf => decode buf
        | none => .error (.unsupported "zlib decompression failed")
      else decode body

end Ruwa.Protocol.Binary
