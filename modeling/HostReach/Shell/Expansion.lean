import HostReach.Shell.Subshell

/-!
What words stand for. An expansion may execute commands, which is left to a runner, and may end the
script that it stands in.
-/
namespace HostReach.Shell

abbrev Runner := Command → State → State

inductive Item where
  /-- A character; one that splits may end a field. -/
  | char (c : Char) (quoted splits : Bool)
  /-- An empty quoted text, which makes a field. -/
  | mark
  /-- The end of an argument that is cut into fields, and of one that is a field of its own. -/
  | gap
  | cut
  deriving DecidableEq, Repr

def plainItems (t : List Char) (quoted splits : Bool) : List Item :=
  t.map fun c => .char c quoted splits

def separated (between : Item) (quoted : Bool) (args : List (List Char)) : List Item :=
  [between].intercalate (args.map fun t => plainItems t quoted (!quoted))

def textOfItems (is : List Item) : List Char :=
  is.filterMap fun
    | .char c _ _ => some c
    | _ => none

def glyphsOf (is : List Item) : List Glyph :=
  is.filterMap fun
    | .char c quoted _ => some ⟨c, quoted⟩
    | _ => none

/-- Cuts items into fields. `field` holds the items of the field that is being read, last one first.
After a separator that is a blank, one other separator belongs to it, and blanks after a separator
do so too; `absorbs` says what may still be left out. -/
def cutFields (separators : List Char) (field : List Item) (owed : Bool) (absorbs : Option Bool) :
    List Item → List (List Item)
  | [] => if field.isEmpty && !owed then [] else [field.reverse]
  | .cut :: is => field.reverse :: cutFields separators [] true none is
  | .gap :: is =>
    if field.isEmpty then cutFields separators [] owed none is
    else field.reverse :: cutFields separators [] false none is
  | .mark :: is => cutFields separators (.mark :: field) owed none is
  | .char c quoted splits :: is =>
    if splits && separators.contains c then
      let isBlank := isSeparator c
      match absorbs with
      | some mayTakeOther =>
        if isBlank then cutFields separators field owed absorbs is
        else if mayTakeOther then cutFields separators field owed (some false) is
        else field.reverse :: cutFields separators [] false (some false) is
      | none =>
        if isBlank && field.isEmpty then cutFields separators field owed none is
        else field.reverse :: cutFields separators [] false (some isBlank) is
    else cutFields separators (.char c quoted splits :: field) owed none is

def home? (s : State) (user : List Char) : Option (List Char) :=
  if user.isEmpty then s.parameter "HOME".toList
  else if user == "root".toList then some "/root".toList
  else none

inductive Tildes where
  | nowhere
  | start
  /-- At the start, and after colons. -/
  | everywhere
  deriving DecidableEq, Repr

/-- Text that may begin with a tilde, as parts; a directory counts as quoted. A tilde stands for one
only if all of the name after it is there. -/
def tildeParts (s : State) (ends : Char → Bool) (isWhole : Bool) (t : List Char) : List Part :=
  match t with
  | '~' :: t =>
    let user := t.takeWhile fun c => !ends c
    let rest := t.drop user.length
    if rest.isEmpty && !isWhole then [.text ('~' :: t) false]
    else
      match home? s user with
      | some d => [.text d true, .text rest false]
      | none => [.text ('~' :: t) false]
  | t => [.text t false]

def expandTildes (s : State) (tildes : Tildes) (isFirst isLast : Bool)
    (t : List Char) : List Part :=
  match tildes with
  | .nowhere => [.text t false]
  | .start => if isFirst then tildeParts s (· == '/') isLast t else [.text t false]
  | .everywhere =>
    let piece (isWhole : Bool) (t : List Char) : List Part :=
      tildeParts s (fun c => c == '/' || c == ':') isWhole t
    match Chars.splitAt ':' t with
    | [] => []
    | first :: others =>
      (if isFirst then piece (isLast || !others.isEmpty) first else [.text first false]) ++
        others.zipIdx.flatMap fun (u, i) =>
          .text [':'] false :: piece (isLast || i + 1 < others.length) u

/-- The output of a command, without the line ends at its end, and the state after it. -/
def substitute (run : Runner) (c : Command) (s : State) : List Char × State :=
  let (n, s) := s.fresh
  let begun := s.connect 1 (some (.stream n))
  let inner := run (.subshell s.line c) (if c.isEmpty then begun.withStatus 0 else begun)
  let time := inner.closingTime n
  let text := ((inner.textOf n).reverse.dropWhile (· == '\n')).reverse
  let world := (inner.forget n).world
  let flow := match inner.flow with
    | .endless => .endless
    | .killed n => .killed n
    | _ => s.flow
  let s := { s with world, substituted := inner.status, flow }
  (text.filter (· != '\x00'), s.waitUntil time)

def readVariable (s : State) (name : List Char) : Except Arithmetic.Fault Int64 :=
  let t := (s.parameter name).getD []
  match Arithmetic.valueOf? t with
  | some n => .ok n
  | none => .error (.illegalNumber t)

def writeVariable (s : State) (name : List Char) (n : Int64) : Except Arithmetic.Fault State :=
  match s.binding? name with
  | some v =>
    if v.isReadOnly then .error (.readOnly name)
    else .ok (s.assign name (Decimal.ofInt n.toInt).toList)
  | none => .ok (s.assign name (Decimal.ofInt n.toInt).toList)

def calculate (s : State) (t : List Char) : List Char × State :=
  let faulty (what : String) : List Char × State :=
    ([], s.fail (("arithmetic expression: " ++ what ++ ": \"").toList ++ t ++ ['\x22']))
  match (Arithmetic.parse t).value readVariable writeVariable s with
  | .ok (n, s) => ((Decimal.ofInt n.toInt).toList, s)
  | .error .divisionByZero => faulty "division by zero"
  | .error (.expecting what) => faulty ("expecting " ++ what)
  | .error (.illegalNumber t) => ([], s.fail ("Illegal number: ".toList ++ t))
  | .error (.readOnly name) => ([], s.fail (name ++ ": is read only".toList))

def parameterItems (s : State) (name : List Char) (full quoted : Bool) : List Item :=
  if full && name == ['@'] && quoted then separated .cut true s.args
  else if full && (name == ['@'] || name == ['*']) && !quoted then separated .gap false s.args
  else plainItems ((s.parameter name).getD []) quoted (!quoted)

/-- A name that stands for the arguments, which are never missing. -/
def isArguments (name : List Char) : Bool := name == ['@'] || name == ['*']

def missing (s : State) (name : List Char) : State := s.fail (name ++ ": parameter not set".toList)

/-- The items of a text that stands in a word. An empty quoted one makes a field. -/
def textItems (inWord : Bool) (t : List Char) (quoted : Bool) : List Item :=
  if quoted && t.isEmpty then [.mark] else plainItems t quoted (inWord && !quoted)

mutual

/-- What the parts of a word give, and the state after them. Where `full` is set the items are cut
into fields later; `inWord` marks a word inside an expansion, whose text is cut as well. -/
def itemsOf (run : Runner) (full inWord : Bool) (tildes : Tildes) (isFirst : Bool)
    (w : Word) (s : State) : List Item × State :=
  match w with
  | [] => ([], s)
  | p :: ps =>
    let (is, s) := partItems run full inWord tildes isFirst ps.isEmpty p s
    if s.isStopped then (is, s)
    else
      let (more, s) := itemsOf run full inWord tildes false ps s
      (is ++ more, s)

def partItems (run : Runner) (full inWord : Bool) (tildes : Tildes)
    (isFirst isLast : Bool) (p : Part) (s : State) : List Item × State :=
  match p with
  | .text t true => (textItems inWord t true, s)
  | .text t false =>
    ((expandTildes s tildes isFirst isLast t).flatMap fun
      | .text t quoted => textItems inWord t quoted
      | _ => [], s)
  | .arithmetic e quoted =>
    let (is, s) := itemsOf run false false .nowhere false e s
    if s.isStopped then ([], s)
    else
      let (t, s) := calculate s (textOfItems is)
      (plainItems t quoted (!quoted), s)
  | .substitution c quoted =>
    let (t, s) := substitute run c s
    (plainItems t quoted (!quoted), s)
  | .parameter r word quoted =>
    let held := s.parameter r.name
    let isAbsent := match held with
      | some v => r.colon && v.isEmpty
      | none => true
    let value := held.getD []
    let asItIs := (parameterItems s r.name full quoted, s)
    let inner := if tildes == .nowhere then .start else tildes
    let isRefused := s.isOn 'u' && held.isNone && !isArguments r.name
    match r.treatment with
    | .plain =>
      if isRefused then ([], missing s r.name)
      else
        let (more, s) := itemsOf run full inWord .nowhere false word s
        (asItIs.1 ++ more, s)
    | .length =>
      if isRefused then ([], missing s r.name)
      else (plainItems (State.decimal value.length) quoted (!quoted), s)
    | .orElse => if isAbsent then itemsOf run full true inner true word s else asItIs
    | .instead => if isAbsent then ([], s) else itemsOf run full true inner true word s
    | .assign =>
      if isAbsent then
        let (is, s) := itemsOf run false true inner true word s
        if s.isStopped then ([], s)
        else if !isName r.name then ([], s.fail (r.name ++ ": bad variable name".toList))
        else
          let t := textOfItems is
          (plainItems t quoted (!quoted), s.assign r.name t)
      else asItIs
    | .demand =>
      if isAbsent then
        let (is, s) := itemsOf run false true inner true word s
        if s.isStopped then ([], s)
        else
          let reason :=
            if !word.isEmpty then textOfItems is
            else ("parameter not set" ++ if r.colon then " or null" else "").toList
          ([], s.fail (r.name ++ ": ".toList ++ reason))
      else asItIs
    | .cutFront longest =>
      if isRefused then ([], missing s r.name)
      else if held.isNone then ([], s)
      else
        let (is, s) := itemsOf run false true inner true word s
        let t := Pattern.cutFront longest (Pattern.items (glyphsOf is)) value
        (plainItems t quoted (!quoted), s)
    | .cutBack longest =>
      if isRefused then ([], missing s r.name)
      else if held.isNone then ([], s)
      else
        let (is, s) := itemsOf run false true inner true word s
        let t := Pattern.cutBack longest (Pattern.items (glyphsOf is)) value
        (plainItems t quoted (!quoted), s)
    | .unknown => ([], s.failText "Bad substitution")

end

def expandFields (run : Runner) (w : Word) (s : State) : List (List Char) × State :=
  let (is, s) := itemsOf run true false .start true w s
  if s.isStopped then ([], s)
  else
    let fields := cutFields s.separators [] false none is
    let paths (field : List Item) : List (List Char) :=
      if s.isOn 'f' then [textOfItems field] else Pattern.paths s.files (glyphsOf field)
    (fields.flatMap paths, s)

def expandWords (run : Runner) (ws : List Word) (s : State) : List (List Char) × State :=
  match ws with
  | [] => ([], s)
  | w :: ws =>
    let (fields, s) := expandFields run w s
    if s.isStopped then (fields, s)
    else
      let (more, s) := expandWords run ws s
      (fields ++ more, s)

def expandWhole (run : Runner) (w : Word) (s : State) : List Char × State :=
  let (is, s) := itemsOf run false false .start true w s
  (textOfItems is, s)

def expandValue (run : Runner) (w : Word) (s : State) : List Char × State :=
  let (is, s) := itemsOf run false false .everywhere true w s
  (textOfItems is, s)

def expandPattern (run : Runner) (w : Word) (s : State) : List Pattern.Item × State :=
  let (is, s) := itemsOf run false false .start true w s
  (Pattern.items (glyphsOf is), s)

def expandDocument (run : Runner) (number : Nat) (s : State) : List Char × State :=
  let (is, s) := itemsOf run false false .nowhere false ((s.documents.lookup number).getD []) s
  (textOfItems is, s)

end HostReach.Shell
