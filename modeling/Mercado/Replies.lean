/-! `redis_interface::types`: what the replies of single commands are read as. -/
namespace Mercado

inductive SetnxReply where
  | keySet | keyNotSet
  deriving DecidableEq, Repr

inductive HsetnxReply where
  | keySet | keyNotSet
  deriving DecidableEq, Repr

inductive SaddReply where
  | keySet | keyNotSet
  deriving DecidableEq, Repr

/- SET answers `OK` or nothing, HSETNX and SADD the number of members added. -/
def SetnxReply.fromValue : Option String → Except Unit SetnxReply
  | some _ => .ok .keySet
  | none => .ok .keyNotSet

def HsetnxReply.fromValue : Nat → Except Unit HsetnxReply
  | 1 => .ok .keySet
  | 0 => .ok .keyNotSet
  | _ => .error ()

def SaddReply.fromValue : Nat → Except Unit SaddReply
  | 1 => .ok .keySet
  | 0 => .ok .keyNotSet
  | _ => .error ()

inductive DelReply where
  | keyDeleted | keyNotDeleted
  deriving DecidableEq, Repr

def DelReply.fromValue : Nat → Except Unit DelReply
  | 1 => .ok .keyDeleted
  | 0 => .ok .keyNotDeleted
  | _ => .error ()

end Mercado
