import GroupKey.Random.ChaCha

/-!
# Generators with a script

A scripted generator serves requests from a fixed byte string as long as whole requests fit;
the first that does not fit ends the script, and from then on a ChaCha generator answers.
-/

namespace GroupKey

/-- A script in front of a ChaCha generator. -/
structure Scripted where
  script : Bytes
  rest : ChaCha

namespace Scripted

/-- Serves a request from the script if it fits, else from the generator behind it. -/
def bytes (n : Nat) (g : Scripted) : Bytes × Scripted :=
  if n ≤ g.script.length then (g.script.take n, { g with script := g.script.drop n })
  else
    let (bs, rest) := g.rest.bytes n
    (bs, ⟨[], rest⟩)

theorem length_bytes (n : Nat) (g : Scripted) : (g.bytes n).1.length = n := by
  by_cases h : n ≤ g.script.length
  · simp [bytes, h]
  · simp [bytes, h, ChaCha.length_bytes]

instance : Generator Scripted := ⟨bytes, length_bytes⟩

end Scripted

end GroupKey
