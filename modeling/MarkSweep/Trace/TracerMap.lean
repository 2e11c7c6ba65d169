import MarkSweep.Tag
import MarkSweep.Trace.ClassMap
import MarkSweep.Trace.Visit

/-!
# Tracing

A tracer knows where the payloads of one kind of object hold references. A `TracerMap` has a tracer
for each of some tags; `TracerMap.standard` covers the built-in ones:

* class instance: word 0 is the class id, references are in the fields that the class names;
* list and dictionary: word 0 is a count, and as many references follow;
* dictionary entry: the first three words; cell: the first word;
* text, integers and raw bytes: no references.

Instances, lists and dictionaries may also be empty, before their first word is written.
-/

namespace MarkSweep

/-- Finds the possible references in a payload. -/
abbrev Tracer := Payload → Visit

namespace Tracer

/-- Payloads without references. -/
def leaf : Tracer := fun _ => .nothing

/-- Payloads whose first `n` words are references. -/
def leading (n : Nat) : Tracer := fun payload => .run payload 0 n

/-- Payloads of a count and as many references. -/
def counted : Tracer := fun payload =>
  if payload.isEmpty then
    .nothing
  else
    match payload.word 0 with
    | .ok n => .run payload 1 n.toNat
    | .error cause => .fail cause

/-- Class instances. -/
def instances (classes : ClassMap) : Tracer := fun payload =>
  if payload.isEmpty then
    .nothing
  else
    match payload.word 0 with
    | .error cause => .fail cause
    | .ok id =>
      if id = 0 then
        .nothing
      else
        match classes.find? id.toNat with
        | some shape => .words payload (shape.references.map (· + 1))
        | none => .fail (.unknownClass id.toNat)

end Tracer

/-- The tracers in use, by tag. -/
structure TracerMap where
  /-- The tracer for objects with the tag. -/
  tracer? : Tag → Option Tracer

namespace TracerMap

/-- No tracers. -/
def empty : TracerMap := ⟨fun _ => none⟩

/-- Uses a tracer for a tag, in place of an earlier one. -/
def insert (t : TracerMap) (tag : Tag) (tracer : Tracer) : TracerMap :=
  ⟨fun other => if other = tag then some tracer else t.tracer? other⟩

/-- The tracers for the built-in tags. -/
def standard (classes : ClassMap) : TracerMap :=
  empty
    |>.insert .object (.instances classes)
    |>.insert .list .counted
    |>.insert .dict .counted
    |>.insert .dictEntry (.leading 3)
    |>.insert .cell (.leading 1)
    |>.insert .text .leaf
    |>.insert .bigInt .leaf
    |>.insert .blob .leaf

/-- Whether objects with the tag can be traced. -/
def covers (t : TracerMap) (tag : Tag) : Bool := (t.tracer? tag).isSome

/-- Visits an object with the given tag and payload. -/
def visit (t : TracerMap) (tag : Tag) (payload : Payload) : Visit :=
  match t.tracer? tag with
  | some tracer => tracer payload
  | none => .fail .untraced

/-- The tags that can be traced, by ascending code. The tag of blocks without an object is not
shown. -/
def describe (t : TracerMap) : String :=
  let shown := Tag.all.filter fun tag => tag ≠ .untagged && t.covers tag
  "\x7b" ++ ", ".intercalate (shown.map Tag.describe) ++ "\x7d"

end TracerMap

end MarkSweep
