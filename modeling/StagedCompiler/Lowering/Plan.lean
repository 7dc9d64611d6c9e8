import StagedCompiler.Assoc
import StagedCompiler.Lowering.HostPasses
import StagedCompiler.Registry

/-!
# Lowering plans

A plan is the sequence of passes that a module goes through.  The host passes of the target are its
skeleton, and the passes of plugins stand where their placement puts them; those in the same place
keep registry order.  Running a plan verifies the module behind every pass.
-/

namespace StagedCompiler.Lowering

/-- A pass with the identity that it runs under. -/
structure Step : Type where
  id : String
  pass : Extension.Pass

/-- The passes that modules of a run go through. -/
structure Plan : Type where
  target : Target
  steps : List Step

namespace Plan

/-- A plugin's pass with the place it stands in. -/
structure Placed : Type where
  placement : Placement
  step : Step

/-- The passes of plugins with their places, in registry order. -/
def placedPasses (registry : Registry) : List Placed :=
  registry.loweringPasses.map fun (record, pass) =>
    ⟨record.placement.getD default, ⟨record.id.text, pass⟩⟩

/-- The names of the host passes of a target. -/
def hostNames (target : Target) : List String := (hostPasses target).map (·.name)

/-- A host pass with its identity. -/
def hostStep (pass : Extension.Pass) : Step := ⟨Registry.hostPlugin ++ "/" ++ pass.name, pass⟩

/-- The passes of plugins that stand on one side of host passes, by the names of these. -/
abbrev Side : Type := List (String × List Step)

namespace Side

/-- The passes on this side of a host pass. -/
def of (side : Side) (host : String) : List Step := (side.lookup host).getD []

/-- One more pass on this side of a host pass, behind the others. -/
def join (side : Side) (host : String) (step : Step) : Side :=
  Assoc.put host (side.of host ++ [step]) side

/-- Nothing on this side of a host pass any more. -/
def clear (side : Side) (host : String) : Side := side.filter fun entry => entry.1 != host

end Side

/-- The passes of plugins, sorted by the places that they stand in. -/
structure Slots : Type where
  first : List Step := []
  last : List Step := []
  before : Side := []
  after : Side := []

namespace Slots

/-- The mistake of a pass that is placed next to a pass that the target does not have. -/
def strayError (target : Target) (step : Step) (anchor : String) : ConfigError :=
  .unknownAnchor step.id anchor target (hostNames target)

/-- Put one more pass in its place, behind those that stand there. -/
def add (target : Target) (slots : Slots) (p : Placed) : Except ConfigError Slots :=
  match p.placement with
  | .first => .ok { slots with first := slots.first ++ [p.step] }
  | .last => .ok { slots with last := slots.last ++ [p.step] }
  | .before anchor =>
    if (hostNames target).contains anchor then
      .ok { slots with before := slots.before.join anchor p.step }
    else .error (strayError target p.step anchor)
  | .after anchor =>
    if (hostNames target).contains anchor then
      .ok { slots with after := slots.after.join anchor p.step }
    else .error (strayError target p.step anchor)

/-- The host passes with what stands next to them, and behind them what stands last.  What has got its
place is taken out. -/
def merge : List Extension.Pass → Slots → List Step
  | [], slots => slots.last
  | pass :: rest, slots =>
    slots.before.of pass.name ++ hostStep pass :: (slots.after.of pass.name ++
      merge rest { slots with
        before := slots.before.clear pass.name, after := slots.after.clear pass.name })

end Slots

/-- The plan of a registry for a target. -/
def build (target : Target) (registry : Registry) : Except ConfigError Plan := do
  let slots ← (placedPasses registry).foldlM (Slots.add target) {}
  pure ⟨target, slots.first ++ slots.merge (hostPasses target)⟩

/-- The identities of the passes, in order. -/
def names (p : Plan) : List String := p.steps.map (·.id)

/-- Whether every pass says of itself that running it again changes nothing. -/
def isIdempotent (p : Plan) : Bool := p.steps.all (·.pass.idempotent)

/-- The fault of a pass that stopped. -/
def stopFault (id : String) : Extension.PassStop → Fault
  | .aborted message => .passAborted id message
  | .panicked panic => .passPanicked id panic.message

/-- Run one pass and verify what it leaves behind. -/
def runStep (target : Target) (descriptors : Descriptor.Table) (step : Step) (m : Module) :
    Except Fault Unit × Module :=
  let result := step.pass.run ⟨descriptors, step.id, target⟩ m
  match result.stop with
  | some stop => (.error (stopFault step.id stop), result.module)
  | none =>
    match result.module.verify descriptors with
    | .error violation => (.error (.malformedIr step.id violation), result.module)
    | .ok () => (.ok (), result.module)

/-- Run passes one after another, up to the first that fails. -/
def runSteps (target : Target) (descriptors : Descriptor.Table) :
    List Step → Module → Except Fault Unit × Module
  | [], m => (.ok (), m)
  | step :: rest, m =>
    match runStep target descriptors step m with
    | (.ok (), m) => runSteps target descriptors rest m
    | failed => failed

/-- Run a plan: all passes, and then the compaction of what they leave behind.  After a fault the
module is the one that the failing pass left behind. -/
def run (p : Plan) (m : Module) (descriptors : Descriptor.Table) : Except Fault Unit × Module :=
  match runSteps p.target descriptors p.steps m with
  | (.ok (), m) => (.ok (), m.compacted)
  | failed => failed

end Plan

end StagedCompiler.Lowering
