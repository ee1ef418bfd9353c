import HeapHttpd.Huffman.Tables
import HeapHttpd.Library.Outcome
import Mathlib.Tactic.Common

/-!
# The Huffman coder

The encoder and the decoder of `util/huffman.cpp`.  A decoding tree has one
node for every path of child indices from the root; a `NULL` child is a path
without a node.  Child indices are `unsigned char`s.  The decoder consumes whole bytes of the code as child indices,
so a code whose length is no multiple of eight occupies a range of sibling
leaves.
-/

namespace HeapHttpd

namespace Huffman

/-- `struct node` without its children. -/
structure Node where
  sym : UInt8
  codeLen : Nat
  size : Nat
  deriving DecidableEq, Repr

/-- A tree of nodes, addressed by the child indices leading to them. -/
abbrev Tree := Std.TreeMap (List UInt8) Node

/-- `node_create`. -/
def nodeCreate : Node where
  sym := 0
  codeLen := 0
  size := 0

/-- The tree holding only a root. -/
def rootOnly : Tree :=
  (∅ : Tree).insert [] nodeCreate

/-- Label one child of the current node, creating it if it is absent. -/
def hfFillSlot (sym : UInt8) (codeLen : Nat) (cur : List UInt8) (tree : Tree)
    (slot : UInt8) : Tree :=
  let leaf := tree[cur ++ [slot]]?.getD nodeCreate
  let filled := tree.insert (cur ++ [slot])
    { leaf with sym := sym, codeLen := codeLen }
  filled.modify cur fun node => { node with size := node.size + 1 }

/-- The child node reached by one full byte of the code. -/
def hfEnterChild (cur : List UInt8) (tree : Tree) (index : UInt8) : Tree :=
  if tree[cur ++ [index]]? = none then tree.insert (cur ++ [index]) nodeCreate
  else tree

/-- The child indices `start` to `start + end - 1` of a code of at most eight
bits, which none of them leaves. -/
def slots (code codeLen : Nat) : List UInt8 :=
  let start := (code <<< (8 - codeLen)) % 256
  (List.range (1 <<< (8 - codeLen))).map fun offset => UInt8.ofNat (start + offset)

/-- `_hf_add_node`, from the node `cur` on with `codeLen` bits of the code left. -/
def hfAddNode (sym : UInt8) (code : Nat) : Nat → Tree → List UInt8 → Tree
  | codeLen + 9, tree, cur =>
      let index := UInt8.ofNat (code >>> (codeLen + 1))
      hfAddNode sym code (codeLen + 1) (hfEnterChild cur tree index)
        (cur ++ [index])
  | codeLen, tree, cur =>
      (slots code codeLen).foldl (hfFillSlot sym codeLen cur) tree

/-- `hf_init`: the root and the 256 symbols added in order. -/
def hfInit : Tree :=
  (List.range 256).foldl
    (fun tree index =>
      let sym := UInt8.ofNat index
      hfAddNode sym (hexToHfCode sym) (hexToHfCodeLen sym) tree [])
    rootOnly

/-- `hf_byte_encode`: the bytes it completes, the byte it leaves open and the
number of bits that byte still takes.  The first argument bounds the passes. -/
def hfByteEncode (codes : Nat) :
    Nat → Nat → Nat → Nat → List UInt8 × Nat × Nat
  | 0, _, remain, cur => ([], cur, remain)
  | passes + 1, nbits, remain, cur =>
      if nbits < remain then
        ([], cur ||| (codes <<< (remain - nbits)) % 256, remain - nbits)
      else
        let completed := UInt8.ofNat (cur ||| (codes >>> (nbits - remain)) % 256)
        if nbits - remain = 0 then ([completed], 0, 8)
        else
          let (more, cur, remain) := hfByteEncode codes passes (nbits - remain) 8 0
          (completed :: more, cur, remain)

/-- The loop of `hf_string_encode`.  The length table is indexed by a signed
`char`, so an octet from 0x80 on reads it at a negative index. -/
def hfEncodeLoop :
    List UInt8 → List UInt8 → Nat → Nat → Outcome (List UInt8 × Nat × Nat)
  | [], out, cur, remain => .ok (out, cur, remain)
  | ch :: rest, out, cur, remain =>
      if 0x80 ≤ ch.toNat then .fault
      else
        let (completed, cur, remain) :=
          hfByteEncode (hexToHfCode ch) (hexToHfCodeLen ch) (hexToHfCodeLen ch) remain cur
        hfEncodeLoop rest (out ++ completed) cur remain

/-- `hf_string_encode` into a zeroed buffer, with `prefix` 0. -/
def hfStringEncode (buffIn : List UInt8) : Outcome (List UInt8) := do
  let (out, cur, remain) ← hfEncodeLoop buffIn [] 0 8
  if remain < 8 then
    .ok (out ++ [UInt8.ofNat (cur ||| (0x3fffffff >>> (30 - remain)) % 256)])
  else .ok out

/-- The inner loop of `hf_string_decode`: follow whole bytes of the window
`cur`, whose `nbits` low bits are pending, from the node `n` on.  The first
argument bounds the passes. -/
def hfDecodeDrain (root : Tree) (outSz : Nat) :
    Nat → Nat → Nat → List UInt8 → List UInt8 →
      Outcome (Nat × List UInt8 × List UInt8)
  | 0, _, _, _, _ => .fault
  | passes + 1, cur, nbits, n, out =>
      if 8 ≤ nbits then
        let idx := UInt8.ofNat (cur >>> (nbits - 8))
        match root[n ++ [idx]]? with
        | none => .err
        | some child =>
            if child.size = 0 then
              if 0 < outSz ∧ outSz < out.length then .err
              else if outSz ≤ out.length then .fault
              else
                hfDecodeDrain root outSz passes cur (nbits - child.codeLen) []
                  (out ++ [child.sym])
            else hfDecodeDrain root outSz passes cur (nbits - 8) (n ++ [idx]) out
      else .ok (nbits, n, out)

/-- The outer loop of `hf_string_decode`, one input byte a pass. -/
def hfDecodeBytes (root : Tree) (outSz : Nat) :
    Nat → List UInt8 → Nat → Nat → List UInt8 → List UInt8 →
      Outcome (Nat × Nat × List UInt8 × List UInt8)
  | 0, _, cur, nbits, n, out => .ok (cur, nbits, n, out)
  | _ + 1, [], _, _, _, _ => .fault
  | count + 1, byte :: enc, cur, nbits, n, out => do
      let cur := (cur <<< 8 ||| byte.toNat) % 2 ^ 32
      let (nbits, n, out) ← hfDecodeDrain root outSz (nbits + 9) cur (nbits + 8) n out
      hfDecodeBytes root outSz count enc cur nbits n out

/-- The last loop of `hf_string_decode`, over the bits short of a byte.  A
missing child is dereferenced. -/
def hfDecodeTail (root : Tree) (outSz : Nat) :
    Nat → Nat → Nat → List UInt8 → List UInt8 → Outcome (List UInt8)
  | 0, _, _, _, _ => .fault
  | passes + 1, cur, nbits, n, out =>
      if 0 < nbits then
        match root[n ++ [UInt8.ofNat (cur <<< (8 - nbits))]]? with
        | none => .fault
        | some child =>
            if child.size ≠ 0 ∨ nbits < child.codeLen then .ok out
            else if outSz ≤ out.length then .fault
            else
              hfDecodeTail root outSz passes cur (nbits - child.codeLen) []
                (out ++ [child.sym])
      else .ok out

/-- `hf_string_decode` of `encSz` bytes of the memory `enc` into a buffer of
`outSz` bytes; the two negative results are not told apart. -/
def hfStringDecode (root : Tree) (enc : List UInt8) (encSz outSz : Nat) :
    Outcome (List UInt8) := do
  let (cur, nbits, n, out) ← hfDecodeBytes root outSz encSz enc 0 0 [] []
  hfDecodeTail root outSz (nbits + 1) cur nbits n out

end Huffman

end HeapHttpd
