import VoxelFeatures.Block.Id

/-!
# Plants

Small plants are blocks whose metadata is known to fit in four bits. The module
also names the flower variants and says which flower grows at a noise value.
-/

namespace VoxelFeatures

/-- A block to plant, with metadata of four bits. -/
structure Plant where
  id : BlockId
  data : UInt8
  data_lt : data < 16
deriving DecidableEq

namespace Flower

def poppy : UInt8 := 0
def blueOrchid : UInt8 := 1
def allium : UInt8 := 2
def azureBluet : UInt8 := 3
def redTulip : UInt8 := 4
def orangeTulip : UInt8 := 5
def whiteTulip : UInt8 := 6
def pinkTulip : UInt8 := 7
def oxeyeDaisy : UInt8 := 8

/-- The variants of the red flower, in metadata order. -/
def all : List UInt8 :=
  [poppy, blueOrchid, allium, azureBluet, redTulip, orangeTulip, whiteTulip, pinkTulip, oxeyeDaisy]

end Flower

namespace Plant

theorem low_nibble_lt (v : UInt8) : v &&& 0xF < 16 := by
  have h : (v &&& 0xF).toNat ≤ 15 := by
    rw [UInt8.toNat_and]
    exact Nat.and_le_right
  exact UInt8.lt_iff_toNat_lt.2 (Nat.lt_succ_of_le h)

/-- The plant of an id and the low four bits of a metadata byte. -/
def ofByte (id : BlockId) (data : UInt8) : Plant := ⟨id, data &&& 0xF, low_nibble_lt data⟩

/-- A variant of the red flower. -/
def flower (variant : UInt8) : Plant := ofByte .redFlower variant

def dandelion : Plant := ofByte .dandelion 0

/-- The plant as a block to place. -/
def block (p : Plant) : Block := ⟨p.id, p.data⟩

/-- The flower that grows at a noise value between `-1` and `1`: a band of
fifths, with dandelions from `0.8` on. Values beyond the ends belong to the
outermost bands, and what is not a number gives a dandelion. -/
def atNoise (n : Float) : Plant :=
  if n < -0.8 then flower Flower.whiteTulip
  else if n < -0.6 then flower Flower.orangeTulip
  else if n < -0.4 then flower Flower.redTulip
  else if n < -0.2 then flower Flower.pinkTulip
  else if n < 0.0 then flower Flower.oxeyeDaisy
  else if n < 0.2 then flower Flower.poppy
  else if n < 0.4 then flower Flower.allium
  else if n < 0.6 then flower Flower.azureBluet
  else if n < 0.8 then flower Flower.redTulip
  else dandelion

end Plant

end VoxelFeatures
