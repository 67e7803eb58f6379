import GroupKey.Time

/-!
# Group identifiers

A group is named by sixteen bytes: a tag, its sequence number, the size tier it was made from
and the time it expires. Identifiers are ordered as their bytes are, which is the
lexicographic order of the four fields.
-/

namespace GroupKey

/-- The identifier of a group. -/
structure GroupId where
  /-- The first four bytes, read as one number. -/
  tag : UInt32
  /-- The sequence number of the group. -/
  seq : UInt16
  /-- The size tier the group was made from. -/
  tier : UInt16
  /-- When the group expires. -/
  expiry : Timestamp
  deriving DecidableEq, Repr

namespace GroupId

/-- The tag of a well-formed identifier, the letters `SID-`. -/
def standardTag : UInt32 := 0x5349442d

/-- The identifier of group `seq` of tier `tier`. -/
def new (seq tier : UInt16) (expiry : Timestamp) : GroupId := ⟨standardTag, seq, tier, expiry⟩

/-- Whether the identifier carries the standard tag. -/
def IsWellFormed (g : GroupId) : Prop := g.tag = standardTag

instance (g : GroupId) : Decidable g.IsWellFormed := inferInstanceAs (Decidable (_ = _))

/-- The number of bytes of an identifier. -/
def size : Nat := 16

/-- The sixteen bytes of an identifier. -/
def toBytes (g : GroupId) : Bytes :=
  Bytes.ofUInt32 g.tag ++ Bytes.ofUInt16 g.seq ++ Bytes.ofUInt16 g.tier ++
    Bytes.ofUInt64 g.expiry.micros

@[simp] theorem length_toBytes (g : GroupId) : g.toBytes.length = size := by
  simp [toBytes, size]

/-- The identifier that sixteen bytes spell, whatever its tag. -/
def ofBytes (bytes : Bytes) : GroupId where
  tag := .ofNat (Bytes.toNatBE (bytes.take 4))
  seq := .ofNat (Bytes.toNatBE ((bytes.drop 4).take 2))
  tier := .ofNat (Bytes.toNatBE ((bytes.drop 6).take 2))
  expiry := ⟨.ofNat (Bytes.toNatBE ((bytes.drop 8).take 8))⟩

/-- The order of the bytes: tag first, then sequence number, tier and expiry. -/
def order : GroupId → GroupId → Ordering :=
  compareLex (compareOn tag) (compareLex (compareOn seq)
    (compareLex (compareOn tier) (compareOn expiry)))

instance : Ord GroupId := ⟨order⟩

instance : Std.TransOrd GroupId :=
  inferInstanceAs (Std.TransCmp (compareLex (compareOn tag) (compareLex (compareOn seq)
    (compareLex (compareOn tier) (compareOn expiry)))))

instance : Std.LawfulEqOrd GroupId where
  eq_of_compare {a b} h := by
    obtain ⟨tagA, seqA, tierA, expiryA⟩ := a
    obtain ⟨tagB, seqB, tierB, expiryB⟩ := b
    change order _ _ = .eq at h
    simp only [order, compareLex_eq_eq, compareOn, Std.LawfulEqOrd.compare_eq_iff_eq] at h
    simp [h]

/-- How a group is named in messages for people. -/
def render (g : GroupId) : String := s!"group-{g.seq}/tier-{g.tier}"

/-- The sixteen bytes in hexadecimal, under the word `Sid`. -/
def debugText (g : GroupId) : String := s!"Sid({Bytes.toHex g.toBytes})"

end GroupId

end GroupKey
