/-!
# Help texts
-/

namespace Portugol

/-- Lines of output, each with its end. -/
def outputLines (lines : List String) : String := String.join (lines.map (· ++ "\n"))

/-- The name and the version of the interpreter. -/
def versionText : String := "PETEQS 0.1.0"

namespace Help

/-- The flags of `run`. -/
def flags : List String :=
  ["Opções de run:",
    "  --input=<valor>    Entrada para LEIA (repetível; sem nenhuma, lê do stdin)",
    "  --json             Imprime o resultado como JSON",
    "  --stream           Escreve a saída à medida que é produzida",
    "  --timeout=<seg>    Tempo máximo por laço (padrão: 30)",
    "  --max-depth=<n>    Profundidade máxima de chamadas (padrão: 1000)"]

/-- All there is to know about the command line. -/
def usage : List String :=
  ["PETEQS - interpretador de pseudocódigo",
    "",
    "Uso: peteqs <comando> [opções]",
    "",
    "Comandos:",
    "  run <arquivo>      Executa um programa",
    "  check <arquivo>    Verifica a sintaxe sem executar",
    "  lex <arquivo>      Mostra as linhas e tokens",
    "  help               Mostra esta ajuda",
    "  version            Mostra a versão",
    ""] ++ flags ++
  ["",
    "Variáveis de ambiente:",
    "  RUST_LOG           Filtro de logs (ex.: peteqs_eval=trace)"]

end Help

end Portugol
