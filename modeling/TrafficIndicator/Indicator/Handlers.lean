import TrafficIndicator.Indicator.Basic
import TrafficIndicator.Rate.Label
/-!
How an indicator reacts. A render pass works out the label, the visibility and the icon and
sends what differs from what was sent last. Ticks sample the counters and arm the next tick
while the indicator is enabled; a changed setting is shown by a refresh some time later.
-/
namespace TrafficIndicator.Indicator

variable {τ : Type}

def quiet (i : Indicator τ) : Reaction τ := ⟨i, [], none⟩

def failing (i : Indicator τ) (f : Fault) : Reaction τ := ⟨i, [], some f⟩

def asking (i : Indicator τ) (rs : List (Request τ)) : Reaction τ :=
  ⟨i, rs.map fun r => (i, r), none⟩

def showText (i : Indicator τ) (l : Label) : Reaction τ :=
  if i.rendered.text = some l then i.quiet
  else asking { i with rendered := { i.rendered with text := some l } } [.send (.text l)]

def showIcon (i : Indicator τ) (d : Direction) : Reaction τ :=
  if i.rendered.icon = some d then i.quiet
  else asking { i with rendered := { i.rendered with icon := some d } } [.send (.icon d)]

def hasTint (i : Indicator τ) : Bool :=
  match i.tint with
  | .null => false
  | _ => true

def showTint (i : Indicator τ) : Reaction τ :=
  if !i.hasTint || i.tint.equal i.rendered.tint then i.quiet
  else asking { i with rendered := { i.rendered with tint := i.tint } } [.send (.tint i.tint)]

def showVisible (i : Indicator τ) (b : Bool) : Reaction τ :=
  if i.rendered.visible = some b then i.quiet
  else
    (asking { i with rendered := { i.rendered with visible := some b } }
      [.note (.visibility b), .send (.visible b)]).andThen fun i =>
        if b then i.showTint else i.quiet

def above (i : Indicator τ) : Bool := Visibility.isAbove i.sample.rx i.sample.tx

def visibilityInputs (i : Indicator τ) : Visibility.Inputs where
  enabled := i.settings.enabled
  connected := i.connected
  autoHide := i.settings.autoHide
  above := i.above
  locked := i.locked
  hasText := i.rendered.text.any fun l => l.value ≠ ""

def label (i : Indicator τ) : Except Fault Label :=
  Label.ofRate (Direction.dominant i.sample.rx i.sample.tx).2 i.settings.unit

def labels (i : Indicator τ) : Bool :=
  i.settings.enabled && i.connected && (!i.settings.autoHide || i.above)

def renderLabel (i : Indicator τ) : Reaction τ :=
  if i.labels then
    match i.label with
    | .ok l => i.showText l
    | .error f => i.failing f
  else i.quiet

def renderShown (i : Indicator τ) : Reaction τ :=
  let shown := i.visibilityInputs.shown
  (i.showVisible shown).andThen fun i =>
    if shown then i.showIcon (Direction.icon i.sample.rx i.sample.tx) else i.quiet

def render (i : Indicator τ) : Reaction τ := i.renderLabel.andThen renderShown

def debounce : Nat := 1000

def armNextTick (i : Indicator τ) : Reaction τ :=
  if i.attached && i.settings.enabled then i.asking [.arm .tick i.sampler.interval] else i.quiet

variable [TimeScale τ]

def tick (reading : Except Fault (Reading τ)) (i : Indicator τ) : Reaction τ :=
  if !i.attached then i.quiet
  else
    (i.asking [.disarm .tick, .disarm .refresh]).andThen fun i =>
      match reading.bind i.sampler.take with
      | .error f => i.failing f
      | .ok (rates, sampler) =>
        let i := { i with sampler := sampler, sample := rates.getD i.sample }
        i.render.andThen armNextTick

omit [TimeScale τ] in
def refresh (i : Indicator τ) : Reaction τ :=
  if !i.attached then i.quiet
  else (i.asking [.disarm .tick]).andThen fun i => i.render.andThen armNextTick

def restart (i : Indicator τ) : Indicator τ :=
  { i with sampler := i.sampler.reset, sample := .idle, rendered := {} }

def settingChanged (key : LooseText) (v : Value) (i : Indicator τ) : Reaction τ :=
  match i.settings.apply i.nesting key v with
  | .error f => i.failing f
  | .ok none => i.asking [.note (.unknownKey key)]
  | .ok (some settings) =>
    let becameEnabled :=
      SettingKey.ofText? key = some .enabled && settings.enabled && !i.settings.enabled
    let i := { i with settings := settings }
    (i.asking [.note (.settingTaken key v)]).andThen fun i =>
      if !i.attached then i.quiet
      else
        (if becameEnabled then i.restart.asking [.arm .tick TimeScale.zero] else i.quiet).andThen
          fun i => i.asking [.arm .refresh (TimeScale.ofNat debounce)]

omit [TimeScale τ] in
def renderIfAttached (i : Indicator τ) : Reaction τ :=
  if i.attached then i.render else i.quiet

omit [TimeScale τ] in
def connectionChanged (available : Bool) (i : Indicator τ) : Reaction τ :=
  (asking { i with connected := available } [.note (.connection available)]).andThen
    renderIfAttached

omit [TimeScale τ] in
def lockChanged (showing : Bool) (i : Indicator τ) : Reaction τ :=
  renderIfAttached { i with locked := showing }

omit [TimeScale τ] in
def tintChanged (color : Value) (pinned : Bool) (i : Indicator τ) : Reaction τ :=
  if i.pinned && !pinned then i.asking [.note (.tintPinned color)]
  else
    let i := { i with pinned := pinned, tint := color }
    if i.attached && i.rendered.visible = some true then i.showTint else i.quiet

def receive (d : Delivery) (i : Indicator τ) : Reaction τ :=
  match d with
  | .setting key v => i.settingChanged key v
  | .connection b => i.connectionChanged b
  | .tint color pinned => i.tintChanged color pinned
  | .lock b => i.lockChanged b

omit [TimeScale τ] in
def join (i : Indicator τ) : Reaction τ :=
  asking { i with attached := true } [.note (.attached i.sampler.interval)]

def settleIn (tickArmed : Bool) (i : Indicator τ) : Reaction τ :=
  i.render.andThen fun i =>
    if i.settings.enabled && !tickArmed then i.asking [.arm .tick TimeScale.zero] else i.quiet

omit [TimeScale τ] in
def fresh (i : Indicator τ) : Indicator τ :=
  { settings := i.settings, sampler := i.sampler.reset, nesting := i.nesting }

omit [TimeScale τ] in
def leave (i : Indicator τ) : Reaction τ :=
  if i.attached then i.fresh.asking [.note .detached] else i.quiet

end TrafficIndicator.Indicator
