import CaveMap.Log.Event

namespace CaveMap

structure Logged (ε α : Type) where
  result : Except ε α
  events : List Log.Event

namespace Logged

variable {ε α β : Type}

def andThen (x : Logged ε α) (f : α → Logged ε β) : Logged ε β :=
  match x.result with
  | .error fault => ⟨.error fault, x.events⟩
  | .ok a => ⟨(f a).result, x.events ++ (f a).events⟩

instance : Monad (Logged ε) where
  pure a := ⟨.ok a, []⟩
  bind := andThen

def fail (fault : ε) : Logged ε α := ⟨.error fault, []⟩

def record (event : Log.Event) : Logged ε Unit := ⟨.ok (), [event]⟩

def mapError {ε' : Type} (f : ε → ε') (x : Logged ε α) : Logged ε' α :=
  ⟨x.result.mapError f, x.events⟩

def ofExcept (result : Except ε α) : Logged ε α := ⟨result, []⟩

end Logged

end CaveMap
