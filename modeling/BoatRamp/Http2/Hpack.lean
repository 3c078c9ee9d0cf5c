import BoatRamp.Http2.Frame
import BoatRamp.Http2.Huffman

/-!
# Header compression

The decoder keeps a dynamic table that every block of a connection reads and
extends; the encoder uses the static table only.  A malformed block is a
connection error.
-/

namespace BoatRamp.Http2

open Http

abbrev HeaderList := List (Octets × Octets)

def STATIC : HeaderList :=
  ([
    (":authority", ""), (":method", "GET"), (":method", "POST"), (":path", "/"),
    (":path", "/index.html"), (":scheme", "http"), (":scheme", "https"), (":status", "200"),
    (":status", "204"), (":status", "206"), (":status", "304"), (":status", "400"),
    (":status", "404"), (":status", "500"), ("accept-charset", ""),
    ("accept-encoding", "gzip, deflate"), ("accept-language", ""), ("accept-ranges", ""),
    ("accept", ""), ("access-control-allow-origin", ""), ("age", ""), ("allow", ""),
    ("authorization", ""), ("cache-control", ""), ("content-disposition", ""),
    ("content-encoding", ""), ("content-language", ""), ("content-length", ""),
    ("content-location", ""), ("content-range", ""), ("content-type", ""), ("cookie", ""),
    ("date", ""), ("etag", ""), ("expect", ""), ("expires", ""), ("from", ""), ("host", ""),
    ("if-match", ""), ("if-modified-since", ""), ("if-none-match", ""), ("if-range", ""),
    ("if-unmodified-since", ""), ("last-modified", ""), ("link", ""), ("location", ""),
    ("max-forwards", ""), ("proxy-authenticate", ""), ("proxy-authorization", ""), ("range", ""),
    ("referer", ""), ("refresh", ""), ("retry-after", ""), ("server", ""), ("set-cookie", ""),
    ("strict-transport-security", ""), ("transfer-encoding", ""), ("user-agent", ""),
    ("vary", ""), ("via", ""), ("www-authenticate", "")
  ] : List (String × String)).map fun entry => (ascii entry.1, ascii entry.2)

def ENTRY_OVERHEAD : Nat := 32

def entrySize (entry : Octets × Octets) : Nat :=
  entry.1.length + entry.2.length + ENTRY_OVERHEAD

structure DynamicTable where
  entries : HeaderList
  size : Nat
  max : Nat
  hardMax : Nat
  deriving DecidableEq

namespace DynamicTable

def new (hardMax : Nat) : DynamicTable := ⟨[], 0, hardMax, hardMax⟩

def get (table : DynamicTable) (index : Nat) : Option (Octets × Octets) :=
  if index = 0 then none
  else if index ≤ STATIC.length then STATIC[index - 1]?
  else table.entries[index - STATIC.length - 1]?

def evict (room : Nat) : (fuel : Nat) → DynamicTable → DynamicTable
  | 0, table => table
  | fuel + 1, table =>
      if table.size + room ≤ table.max then table
      else
        match table.entries.getLast? with
        | none => table
        | some oldest =>
            evict room fuel
              { table with
                entries := table.entries.dropLast, size := table.size - entrySize oldest }

def insert (table : DynamicTable) (entry : Octets × Octets) : DynamicTable :=
  let evicted := evict (entrySize entry) table.entries.length table
  if entrySize entry ≤ evicted.max then
    { evicted with entries := entry :: evicted.entries, size := evicted.size + entrySize entry }
  else evicted

def setMax (table : DynamicTable) (newMax : Nat) : Option DynamicTable :=
  if table.hardMax < newMax then none
  else some (evict 0 table.entries.length { table with max := newMax })

end DynamicTable

/-- The further octets of an integer, at most four of them. -/
def decodeIntTail : (fuel : Nat) → (shift value : Nat) → Octets → Option (Nat × Octets)
  | 0, _, _, _ => none
  | _ + 1, _, _, [] => none
  | fuel + 1, shift, value, octet :: rest =>
      let sum := value + (octet &&& 0x7f).toNat * 2 ^ shift
      if octet &&& 0x80 = 0 then some (sum, rest) else decodeIntTail fuel (shift + 7) sum rest

def decodeInt (width : Nat) : Octets → Option (Nat × Octets)
  | [] => none
  | octet :: rest =>
      let mask := 2 ^ width - 1
      let value := octet.toNat % 2 ^ width
      if value < mask then some (value, rest) else decodeIntTail 4 0 mask rest

def encodeIntTail : (fuel : Nat) → Nat → Octets
  | 0, value => [UInt8.ofNat value]
  | fuel + 1, value =>
      if 128 ≤ value then UInt8.ofNat (value % 128 + 128) :: encodeIntTail fuel (value / 128)
      else [UInt8.ofNat value]

def encodeInt (value width : Nat) (flags : UInt8) : Octets :=
  let mask := 2 ^ width - 1
  if value < mask then [flags ||| UInt8.ofNat value]
  else (flags ||| UInt8.ofNat mask) :: encodeIntTail value (value - mask)

def decodeStr (block : Octets) : Option (Octets × Octets) := do
  let huffman := block.head?.any fun octet : UInt8 => octet &&& 0x80 != 0
  let (length, rest) ← decodeInt 7 block
  if rest.length < length then none
  else
    let raw := rest.take length
    let bytes ← if huffman then Huffman.decode raw else some raw
    return (bytes, rest.drop length)

def encodeStr (text : Octets) : Octets :=
  if Huffman.encodedLen text < text.length then
    let encoded := Huffman.encode text
    encodeInt encoded.length 7 0x80 ++ encoded
  else encodeInt text.length 7 0x00 ++ text

structure Hpack where
  dynamic : DynamicTable
  maxTableSize : Nat
  deriving DecidableEq

namespace Hpack

def new : Hpack := ⟨DynamicTable.new DEFAULT_HEADER_TABLE_SIZE, DEFAULT_HEADER_TABLE_SIZE⟩

def literal (hpack : Hpack) (width : Nat) (block : Octets) :
    Option ((Octets × Octets) × Octets) := do
  let (index, rest) ← decodeInt width block
  let (name, rest) ←
    if index = 0 then decodeStr rest
    else (hpack.dynamic.get index).map fun entry => (entry.1, rest)
  let (value, rest) ← decodeStr rest
  return ((name, value), rest)

/-- The next representation of a block: the field it stands for, if any, the table after it and
the rest of the block.  The size of the table may change before the first field only. -/
def decodeField (hpack : Hpack) (seenField : Bool) (block : Octets) :
    Option (Option (Octets × Octets) × Hpack × Octets) :=
  match block with
  | [] => none
  | octet :: _ =>
      if octet &&& 0x80 != 0 then do
        let (index, rest) ← decodeInt 7 block
        let field ← hpack.dynamic.get index
        return (some field, hpack, rest)
      else if octet &&& 0x40 != 0 then do
        let (field, rest) ← hpack.literal 6 block
        return (some field, { hpack with dynamic := hpack.dynamic.insert field }, rest)
      else if octet &&& 0x20 != 0 then
        if seenField then none
        else do
          let (size, rest) ← decodeInt 5 block
          if hpack.maxTableSize < size then none
          else
            let dynamic ← hpack.dynamic.setMax size
            return (none, { hpack with dynamic := dynamic }, rest)
      else do
        let (field, rest) ← hpack.literal 4 block
        return (some field, hpack, rest)

/-- Field after field; what a block did to the table before it failed stays. -/
def decodeFields : (fuel : Nat) → Hpack → (seenField : Bool) → Octets →
    Except H2Error HeaderList × Hpack
  | _, hpack, _, [] => (.ok [], hpack)
  | 0, hpack, _, _ :: _ => (.error (.connection .compressionError), hpack)
  | fuel + 1, hpack, seenField, block =>
      match hpack.decodeField seenField block with
      | none => (.error (.connection .compressionError), hpack)
      | some (field, next, rest) =>
          let (later, last) := decodeFields fuel next (seenField || field.isSome) rest
          (later.map (field.toList ++ ·), last)

/-- Every representation takes at least one octet. -/
def decode (hpack : Hpack) (block : Octets) : Except H2Error HeaderList × Hpack :=
  decodeFields block.length hpack false block

inductive StaticMatch where
  | full (index : Nat)
  | name (index : Nat)
  | none

def staticLookup (field : Octets × Octets) : StaticMatch :=
  match STATIC.findIdx? (fun entry => entry = field) with
  | some index => .full (index + 1)
  | none =>
      match STATIC.findIdx? (fun entry => entry.1 = field.1) with
      | some index => .name (index + 1)
      | none => .none

def encodeField (field : Octets × Octets) : Octets :=
  match staticLookup field with
  | .full index => encodeInt index 7 0x80
  | .name index => encodeInt index 4 0x00 ++ encodeStr field.2
  | .none => 0x00 :: (encodeStr field.1 ++ encodeStr field.2)

def encode (headers : HeaderList) : Octets := headers.flatMap encodeField

end Hpack

end BoatRamp.Http2
