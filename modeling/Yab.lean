import Yab.Go.Builtin
import Yab.Go.Utf8
import Yab.Go.Json
import Yab.Go.Float
import Yab.Benchmark.Options
import Yab.Benchmark.State
import Yab.Benchmark.Worker
import Yab.Benchmark.Limiter
import Yab.Benchmark.System
import Yab.Benchmark.Matrix
import Yab.Benchmark.LatencyMap
import Yab.Benchmark.Summary
import Yab.Template.Yaml
import Yab.Template.Interpolate
import Yab.Template.Args
import Yab.Template.Merge
