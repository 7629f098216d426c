import ChimeraMQ.Warm.BlockIndex
import ChimeraMQ.Warm.BloomFilter
import ChimeraMQ.Warm.MemTable

/-!
# Sorted tables

A table is a file of sorted entries in blocks, followed by a Bloom filter of
the keys, an index of the blocks and a footer.  It is written once.  The cache
of blocks, which holds what the file holds, and failing reads and writes are
left out.
-/

namespace ChimeraMQ
namespace Warm

open Foundation

def sstMagic : Nat := 0x53535442

def sstVersion : Nat := 1

def sstFooterSize : Nat := 48

def blockSizeDefault : Nat := 64 * 1024

/-!
## Writing
-/

def serializeEntry (e : MemTableEntry) : Bytes :=
  be 4 e.key.length ++ e.key ++ [if e.deleted then 1 else 0] ++
    be 4 e.value.length ++ e.value ++ be 8 e.timestamp

/--
The complete blocks, their index, and the block under way with its first key.
Offsets and lengths lose their high bits when the index is serialized.
-/
structure TableBuilder where
  dataBuf : Bytes
  index : BlockIndex
  blockData : Bytes
  firstKey : Bytes

namespace TableBuilder

/-- Write an entry; a block ends when it is large or nothing follows. -/
def add (b : TableBuilder) (e : MemTableEntry) (next : Option Bytes) :
    TableBuilder :=
  let blockData := b.blockData ++ serializeEntry e
  if blockData.length ≥ blockSizeDefault ∨ next = none then
    { dataBuf := b.dataBuf ++ blockData
      index := b.index ++
        [{ firstKey := b.firstKey
           offset := b.dataBuf.length
           length := blockData.length }]
      blockData := []
      firstKey := next.getD b.firstKey }
  else { b with blockData := blockData }

def addAll (b : TableBuilder) : List MemTableEntry -> TableBuilder
  | [] => b
  | e :: rest => (b.add e (rest.head?.map MemTableEntry.key)).addAll rest

end TableBuilder

def trackOffset (first : Bool) (range : Nat × Nat) (e : MemTableEntry) :
    Nat × Nat :=
  if e.key.length = 8 then
    let off := ofBe e.key
    (if first || decide (off < range.1) then off else range.1,
      if first || decide (off > range.2) then off else range.2)
  else range

def offsetRange : List MemTableEntry -> Nat × Nat
  | [] => (0, 0)
  | e :: rest => rest.foldl (trackOffset false) (trackOffset true (0, 0) e)

def footer (bloomOffset indexOffset entryCount minOff maxOff : Nat) : Bytes :=
  be 4 sstMagic ++ be 4 sstVersion ++ be 4 bloomOffset ++ be 4 indexOffset ++
    be 4 entryCount ++ be 8 minOff ++ be 8 maxOff ++ List.replicate 12 0

def keyFilter (sizing : BloomSizing) (entries : List MemTableEntry) :
    BloomFilter :=
  (entries.map MemTableEntry.key).foldl BloomFilter.add
    (newBloomFilter sizing (entries.length % 2 ^ 32))

def emptyTable : Bytes :=
  be 4 sstMagic ++ be 4 sstVersion ++ List.replicate 40 0

def tableBytes (sizing : BloomSizing) (entries : List MemTableEntry) : Bytes :=
  match entries with
  | [] => emptyTable
  | first :: _ =>
  let built := TableBuilder.addAll
    { dataBuf := [], index := [], blockData := [], firstKey := first.key }
    entries
  let bloomData := (keyFilter sizing entries).marshalBinary
  let indexData := built.index.marshalBinary
  let range := offsetRange entries
  built.dataBuf ++ bloomData ++ indexData ++
    footer built.dataBuf.length (built.dataBuf.length + bloomData.length)
      entries.length range.1 range.2

/-!
## Reading
-/

structure SSTable where
  path : List Char
  file : Nat
  index : BlockIndex
  bloom : BloomFilter
  minOffset : Nat
  maxOffset : Nat
  entryCount : Nat
  closed : Bool
deriving DecidableEq

def readBloom (content : Bytes) (bloomOffset indexOffset dataSize : Nat) :
    Option BloomFilter :=
  if 0 < bloomOffset ∧ bloomOffset < dataSize % 2 ^ 32 then
    let bloomEnd :=
      if indexOffset > dataSize % 2 ^ 32 then dataSize % 2 ^ 32 else indexOffset
    (readAt content bloomOffset ((bloomEnd + 2 ^ 32 - bloomOffset) % 2 ^ 32)).map
      BloomFilter.unmarshalBinary
  else some .zero

def readIndex (content : Bytes) (indexOffset dataSize : Nat) :
    Option BlockIndex :=
  if 0 < indexOffset ∧ indexOffset < dataSize % 2 ^ 32 then
    (readAt content indexOffset (dataSize - indexOffset)).map
      (fun data => (BlockIndex.unmarshalBinary data).getD [])
  else some []

def openTable (path : List Char) (file : Nat) (content : Bytes) :
    Option SSTable :=
  if content.length < sstFooterSize then none
  else
    let dataSize := content.length - sstFooterSize
    let footer := content.drop dataSize
    if ofBe (footer.take 4) ≠ sstMagic then none
    else
      let bloomOffset := ofBe ((footer.drop 8).take 4)
      let indexOffset := ofBe ((footer.drop 12).take 4)
      match readBloom content bloomOffset indexOffset dataSize,
        readIndex content indexOffset dataSize with
      | some bloom, some index =>
        some
          { path := path
            file := file
            index := index
            bloom := bloom
            minOffset := ofBe ((footer.drop 20).take 8)
            maxOffset := ofBe ((footer.drop 28).take 8)
            entryCount := ofBe ((footer.drop 16).take 4)
            closed := false }
      | _, _ => none

/--
Scan a block for a key.  The first argument bounds the number of entries; the
length of the block is always enough.
-/
def scanBlockForKey (key : Bytes) : Nat -> Bytes -> Option (Bytes × Bool)
  | 0, _ => none
  | k + 1, data =>
    if data.length < 4 then none
    else
      let keyLen := ofBe (data.take 4)
      let data := data.drop 4
      if data.length < keyLen + 5 then none
      else
        let entryKey := data.take keyLen
        let deleted := (data.drop keyLen).head? = some 1
        let valLen := ofBe ((data.drop (keyLen + 1)).take 4)
        let data := data.drop (keyLen + 5)
        if data.length < valLen then none
        else if compareKeys entryKey key = .eq then
          some (data.take valLen, deleted)
        else scanBlockForKey key k (data.drop (valLen + 8))

namespace SSTable

def get (sst : SSTable) (content : Bytes) (key : Bytes) :
    Option (Bytes × Bool) :=
  if sst.closed then none
  else if !sst.bloom.mayContain key then none
  else
    match sst.index.search key with
    | none => none
    | some block =>
      match readAt content block.offset block.length with
      | none => none
      | some data => scanBlockForKey key data.length data

def keyRangeMayContain (sst : SSTable) (key : Bytes) : Bool :=
  if key.length ≠ 8 then true
  else decide (ofBe key ≥ sst.minOffset ∧ ofBe key ≤ sst.maxOffset)

end SSTable

end Warm
end ChimeraMQ
