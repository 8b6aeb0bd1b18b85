import Apex.Text.Word

/-!
# Trigger events

A trigger runs before or after an operation on records. Seven of the pairs exist; there is no
`before undelete`.
-/

namespace Apex

/-- When a trigger runs, relative to the operation. -/
inductive TriggerTiming where
  | before | after
deriving DecidableEq, Repr

/-- The events a trigger can be bound to. -/
inductive TriggerEvent where
  | beforeInsert | beforeUpdate | beforeDelete
  | afterInsert | afterUpdate | afterDelete | afterUndelete
deriving DecidableEq, Repr

/-- The timing a word spells, in any letter case. -/
def TriggerTiming.ofWord? (word : String) : Option TriggerTiming :=
  if sameWord "before" word then some .before
  else if sameWord "after" word then some .after
  else none

/-- The word for a timing. -/
def TriggerTiming.word : TriggerTiming → String
  | .before => "before"
  | .after => "after"

namespace TriggerEvent

/-- All trigger events, in the order of the register. -/
def all : List TriggerEvent :=
  [ .beforeInsert, .beforeUpdate, .beforeDelete,
    .afterInsert, .afterUpdate, .afterDelete, .afterUndelete ]

/-- When the trigger runs. -/
def timing : TriggerEvent → TriggerTiming
  | .beforeInsert | .beforeUpdate | .beforeDelete => .before
  | .afterInsert | .afterUpdate | .afterDelete | .afterUndelete => .after

/-- The operation's word. -/
def operation : TriggerEvent → String
  | .beforeInsert | .afterInsert => "insert"
  | .beforeUpdate | .afterUpdate => "update"
  | .beforeDelete | .afterDelete => "delete"
  | .afterUndelete => "undelete"

/-- The two words of the event. -/
def text (e : TriggerEvent) : String := e.timing.word ++ " " ++ e.operation

/-- The event that a timing word and an operation word spell, in any letter case. -/
def ofWords? (timing operation : String) : Option TriggerEvent :=
  match TriggerTiming.ofWord? timing with
  | none => none
  | some t => all.find? fun e => e.timing == t && sameWord e.operation operation

end TriggerEvent

end Apex
