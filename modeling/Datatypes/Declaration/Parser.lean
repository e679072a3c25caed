import Datatypes.Declaration.Step
import Datatypes.Token.Stream

namespace Datatypes.Declaration

def Machine.run (m : Machine) (s : TokenStream) : Except Failure (List Definition) :=
  match _h : s.next? with
  | none => m.finish s.line
  | some (t, s') =>
    match m.step t with
    | .error e => .error e
    | .ok m' => m'.run s'
termination_by s.rest.length
decreasing_by exact TokenStream.next?_length _h

def parseStream (s : TokenStream) : Except ParseError Collection :=
  match Machine.run {} s with
  | .ok definitions => .ok ⟨s.file, definitions⟩
  | .error failure => .error ⟨failure, s.file⟩

def parse (file source : String) : Except ParseError Collection :=
  match TokenStream.ofSource file source with
  | .error e => .error e
  | .ok s => parseStream s

end Datatypes.Declaration
