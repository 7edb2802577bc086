import GenericIR.Log.Config
import GenericIR.Log.Filter
import GenericIR.Log.Record

/-! The logger: a threshold for each module, and sinks of any kind in the order in which they
were added. It decides who is told what; telling them is done elsewhere. -/
namespace GenericIR.Log

structure Logger (σ : Type) where
  /-- Below this level nothing is let through, whatever the filter says. -/
  floor : Level := .info
  filter : Filter := {}
  sinks : List σ := []

namespace Logger

variable {σ : Type}

/-- A logger of that configuration. The rules may lower the fallback of the filter, but not raise
it above the configured level. -/
def configured (config : Config) (sinks : List σ) : Logger σ :=
  let plain : Filter := { fallback := config.level }
  if config.filterSpec.isEmpty then { floor := config.level, filter := plain, sinks }
  else
    let parsed := plain.parse config.filterSpec
    let filter := { parsed with fallback := min parsed.fallback config.level }
    { floor := filter.minLevel, filter, sinks }

@[simp] theorem sinks_configured (config : Config) (sinks : List σ) :
    (configured config sinks).sinks = sinks := by
  unfold configured
  dsimp only
  split <;> rfl

def setLevel (l : Logger σ) (level : Level) : Logger σ :=
  { l with floor := level, filter := { l.filter with fallback := level } }

def setFilter (l : Logger σ) (spec : String) : Logger σ :=
  let filter := l.filter.parse spec
  { l with floor := filter.minLevel, filter }

def addSink (l : Logger σ) (sink : σ) : Logger σ :=
  { l with sinks := l.sinks ++ [sink] }

def clearSinks (l : Logger σ) : Logger σ :=
  { l with sinks := [] }

def shouldLog (l : Logger σ) (level : Level) (module : String) : Bool :=
  decide (l.floor ≤ level) && l.filter.allows level module

/-- An event for every sink. -/
def dispatch (l : Logger σ) (event : Event) : List (σ × Event) :=
  l.sinks.map fun sink => (sink, event)

/-- A note reaches the sinks only if its level is let through. -/
def deliveries (l : Logger σ) (n : Note) (site : CallSite) : List (σ × Event) :=
  if l.shouldLog n.level n.module then l.dispatch (.record (.ofNote n site)) else []

end Logger

/-- All that can be asked of a logger. -/
inductive Command (σ : Type) where
  | configure (config : Config) (sinks : List σ)
  | setLevel (level : Level)
  | setFilter (spec : String)
  | addSink (sink : σ)
  | clearSinks
  /-- A record for every sink, whatever its level. -/
  | log (r : Record)
  | note (n : Note) (site : CallSite := {})
  | flush

/-- The logger afterwards, and what its sinks are told. -/
def Logger.step {σ : Type} (l : Logger σ) : Command σ → Logger σ × List (σ × Event)
  | .configure config sinks => (configured config sinks, [])
  | .setLevel level => (l.setLevel level, [])
  | .setFilter spec => (l.setFilter spec, [])
  | .addSink sink => (l.addSink sink, [])
  | .clearSinks => (l.clearSinks, [])
  | .log r => (l, l.dispatch (.record r))
  | .note n site => (l, l.deliveries n site)
  | .flush => (l, l.dispatch .flush)

end GenericIR.Log
