/-
# Reading the message annotations (`qd_parse_annotations`)

`parse.c`. The message annotations section is a map. `qd_parse_annotations`
walks its keys once: a key that is a symbol naming a router annotation
(`x-opt-qd.to`, `.trace`, `.phase`, `.stream`, `.ingress`, and the ignored
`x-opt-qd.`, `.class`) has its value parsed into an out-parameter or skipped; a
key met while the sticky flag `user_anno` is still set is a user annotation, and
its value is stepped over and counted. The flag is cleared by the first router
key and never set again. A key that comes later and names no router annotation
takes neither branch, so its value is not stepped over and is read as the next key.

The source switches on the key's length before it compares the text, so a key
of a router key's length but another text also takes no branch. The
`user_annotations` out-parameter is a buffer field at the start of the map's
value; it is modelled by the octets it views. `*ma_stream` is not cleared on
entry; its only caller passes a null pointer, and the model starts it empty.
An allocation failure of `qd_parse_internal` is not modelled.
-/

import DispatchRouter.Amqp.Parse

namespace DispatchRouter.Amqp

/-! ### Keys -/

/-- `QD_MA_PREFIX`, the text `x-opt-qd.`. -/
def qdMaPrefix : List UInt8 := [120, 45, 111, 112, 116, 45, 113, 100, 46]

/-- `QD_MA_TO`, `x-opt-qd.to`. -/
def qdMaTo : List UInt8 := qdMaPrefix ++ [116, 111]

/-- `QD_MA_TRACE`, `x-opt-qd.trace`. -/
def qdMaTrace : List UInt8 := qdMaPrefix ++ [116, 114, 97, 99, 101]

/-- `QD_MA_PHASE`, `x-opt-qd.phase`. -/
def qdMaPhase : List UInt8 := qdMaPrefix ++ [112, 104, 97, 115, 101]

/-- `QD_MA_CLASS`, `x-opt-qd.class`. -/
def qdMaClass : List UInt8 := qdMaPrefix ++ [99, 108, 97, 115, 115]

/-- `QD_MA_STREAM`, `x-opt-qd.stream`. -/
def qdMaStream : List UInt8 := qdMaPrefix ++ [115, 116, 114, 101, 97, 109]

/-- `QD_MA_INGRESS`, `x-opt-qd.ingress`. -/
def qdMaIngress : List UInt8 := qdMaPrefix ++ [105, 110, 103, 114, 101, 115, 115]

/-- `qd_buffer_field_equal`: the field starts with `data`. -/
def qdBufferFieldEqual (bfield data : List UInt8) : Bool :=
  data.isPrefixOf bfield

/-- `qd_parse_is_string`: a UTF-8 string, not a symbol. -/
def qdParseIsString (field : ParsedField) : Bool :=
  field.amqp.tag == Tag.str8Utf8 || field.amqp.tag == Tag.str32Utf8

/-! ### The key loop -/

/-- The out-parameters of `qd_parse_annotations`. -/
structure MaFields where
  ingress : Option ParsedField := none
  phase : Option ParsedField := none
  toOverride : Option ParsedField := none
  trace : Option ParsedField := none
  stream : Option ParsedField := none
  userAnnotations : List UInt8 := []
  userCount : UInt32 := 0

/-- Where the key loop stands: the map's fields not read yet (`ma_fields`), the
sticky `user_anno` flag, the size and count of the user annotations so far, and
the out-parameters written so far. -/
structure AnnotationScan where
  maFields : List UInt8
  userAnno : Bool
  userAnnosSize : Nat
  userAnnosCount : UInt32
  out : MaFields

/-- What one round of the key loop does: go on to the next key, leave the loop
(`break`), or return an error. -/
inductive KeyOutcome
  | next (scan : AnnotationScan)
  | stop (scan : AnnotationScan)
  | fail (error : String) (scan : AnnotationScan)

/-- A router annotation's value stepped over with `parse_amqp_field`. -/
def skipValue (scan : AnnotationScan) : KeyOutcome :=
  let skip := parseAmqpField scan.maFields
  match skip.error with
  | some error => .fail error scan
  | none => .next { scan with maFields := skip.rest }

/-- A router annotation's value parsed with `qd_parse_internal` into the
out-parameter `store` writes, then checked by `check`; not read at all when
annotations are stripped. -/
def routerValue (strip : Bool) (scan : AnnotationScan) (store : ParsedField → MaFields → MaFields)
    (check : ParsedField → Option String) : KeyOutcome :=
  if strip then .next scan
  else
    let field := qdParseInternal scan.maFields
    let scan := { scan with maFields := (parseAmqpField scan.maFields).rest, out := store field scan.out }
    match field.parseError with
    | some error => .fail error scan
    | none =>
        match check field with
        | some error => .fail error scan
        | none => .next scan

/-- The test of the to-override and the ingress router: a string. -/
def stringCheck (error : String) (field : ParsedField) : Option String :=
  if !qdParseIsString field then some error else none

/-- The test of the trace: a list of strings. -/
def traceCheck (field : ParsedField) : Option String :=
  if !qdParseIsList field then some "trace annotation is not a list"
  else if !field.children.all qdParseIsString then some "trace list contains non-string entries"
  else none

/-- The switch on a symbol key's length, then its text. The flag is cleared
only where the text matched. -/
def routerKey (strip : Bool) (name : List UInt8) (scan : AnnotationScan) : KeyOutcome :=
  let routed := { scan with userAnno := false }
  match name.length with
  | 9 =>
      -- empty router annotation: its value is skipped
      if qdBufferFieldEqual name qdMaPrefix then skipValue routed else .next scan
  | 11 =>
      if qdBufferFieldEqual name qdMaTo then
        routerValue strip routed (fun field out => { out with toOverride := some field })
          (stringCheck "to-override not a valid string type")
      else .next scan
  | 14 =>
      if qdBufferFieldEqual name qdMaTrace then
        routerValue strip routed (fun field out => { out with trace := some field }) traceCheck
      else if qdBufferFieldEqual name qdMaPhase then
        routerValue strip routed (fun field out => { out with phase := some field }) fun _ => none
      -- no longer used: its value is skipped
      else if qdBufferFieldEqual name qdMaClass then skipValue routed
      else .next scan
  | 15 =>
      if qdBufferFieldEqual name qdMaStream then
        routerValue strip routed (fun field out => { out with stream := some field }) fun _ => none
      else .next scan
  | 16 =>
      if qdBufferFieldEqual name qdMaIngress then
        routerValue strip routed (fun field out => { out with ingress := some field })
          (stringCheck "ingress router not a string type")
      else .next scan
  | _ => .next scan

/-- After the switch: a user annotation's value is stepped over and counted,
key and value each by its constructor, size field and size; otherwise, when
annotations are stripped, the loop ends at the first router key. -/
def afterKey (strip : Bool) (key : AmqpField) (scan : AnnotationScan) : KeyOutcome :=
  if scan.userAnno then
    let user := parseAmqpField scan.maFields
    match user.error with
    | some error => .fail error scan
    | none =>
        let keyLen := 1 + tagGetSizeLength key.tag + key.size.toNat
        let valueLen := 1 + tagGetSizeLength user.amqp.tag + user.amqp.size.toNat
        .next { scan with
          maFields := user.rest
          userAnnosSize := scan.userAnnosSize + (keyLen + valueLen)
          userAnnosCount := scan.userAnnosCount + 2 }
  else if strip then .stop scan
  else .next scan

/-- One round of the key loop: read a key, take the switch if it is a symbol,
then the user-annotation branch. -/
def keyRound (strip : Bool) (scan : AnnotationScan) : KeyOutcome :=
  let key := parseAmqpField scan.maFields
  match key.error with
  | some error => .fail error scan
  | none =>
      let scan := { scan with maFields := key.rest }
      let switched :=
        if key.amqp.tag = Tag.sym8 ∨ key.amqp.tag = Tag.sym32 then routerKey strip key.amqp.value scan
        else .next scan
      match switched with
      | .next scan => afterKey strip key.amqp scan
      | outcome => outcome

/-- `while (kv_count--)`: the loop, with the error it returned and the scan it
left. -/
def keyLoop (strip : Bool) : Nat → AnnotationScan → Option String × AnnotationScan
  | 0, scan => (none, scan)
  | kvCount + 1, scan =>
      match keyRound strip scan with
      | .next scan => keyLoop strip kvCount scan
      | .stop scan => (none, scan)
      | .fail error scan => (some error, scan)

/-- What `qd_parse_annotations` returns once the loop over the map's value has
ended: the loop's error, or the user annotations, set only now. -/
def finishAnnotations (value : List UInt8) : Option String × AnnotationScan → Option String × MaFields
  | (some error, scan) => (some error, scan.out)
  | (none, scan) =>
      (none, { scan.out with userAnnotations := value.take scan.userAnnosSize, userCount := scan.userAnnosCount })

/-- `qd_parse_annotations(strip_annotations_in, ma_iter_in, ...)`: the error it
returns and the out-parameters it leaves. -/
def qdParseAnnotations (strip : Bool) (maIterIn : Option (List UInt8)) : Option String × MaFields :=
  match maIterIn with
  | none => (none, {})
  | some bfield =>
      let maMap := parseAmqpField bfield
      match maMap.error with
      | some error => (some error, {})
      | none =>
          if ¬(maMap.amqp.tag = Tag.map8 ∨ maMap.amqp.tag = Tag.map32) then
            (some "Invalid message annotations section - missing map type", {})
          else if maMap.amqp.count &&& 1 ≠ 0 then (some "Invalid MA map count (odd number of fields)", {})
          else if maMap.amqp.count = 0 then (none, {})
          else
            finishAnnotations maMap.amqp.value
              (keyLoop strip (maMap.amqp.count.toNat / 2) ⟨maMap.amqp.value, true, 0, 0, {}⟩)

end DispatchRouter.Amqp
